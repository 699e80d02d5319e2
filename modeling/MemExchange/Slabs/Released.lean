import MemExchange.Slabs.Vacating

/-!
# A released page is unreferenced

The mover scans the first `perslab` places of a page and starts over as long as it meets a chunk in
use; what it has emptied stays empty. A page that another tenant has given may be cut into more
chunks than the class has in its own pages. The chunks behind the last scanned one then go with the
page while they are in the free list.
-/
namespace MemExchange.Evacuation

open Memory
open Function (update_of_ne update_self update_eq_self update)

/-! ### What the mover does -/

section Mover

variable {cfg : Config} {w t : World} {m : Mover}

variable {s : Memory} {locked flushed : Bool} {now : UInt32} {it : Chunk}
  {r : Option Chunk × Memory}

theorem refs_of_none {mover : Option Mover} (after : mover.bind Mover.hold = none)
    (before : w.hold = none) : World.refs { w with mem := s, mover := mover } = w.refs := by
  funext x
  unfold World.refs
  rw [before]
  show w.held x + Hold.counts (mover.bind Mover.hold) x = _
  rw [after]

theorem Inv.start (inv : Inv cfg w) {c index : Nat} {dest : Dest}
    (even : Even cfg w (.start c index dest)) (called : step cfg w (.start c index dest) = some t) :
    Inv cfg t := by
  obtain ⟨⟨idle, real⟩, called⟩ := Option.ite_none_right_eq_some.mp called
  have before : w.hold = none := by rw [World.hold, idle]; rfl
  -- a page that is picked is scanned from its first chunk on
  have go : ∀ p, w.mem.owner p = c → w.mem.cut p = cfg.perslab c → (∃ d, p ∈ w.mem.slabList d) →
      ((∀ d, dest ≠ .slabClass d) → (w.mem.slabList c)[index]? = some p ∧
        cfg.adjustSize (cfg.size c * cfg.perslab c) ≤ w.mem.mapped p) →
      Inv cfg { w with
        mover := some { sClsid := c, dest := dest, index := index, page := p } } := by
    rintro p owner cut ⟨d, mem⟩ tenant
    refine ⟨?_, inv.laid, ?_, ?_, ?_⟩
    · have counts : World.refs { w with
          mover := some { sClsid := c, dest := dest, index := index, page := p } } = w.refs :=
        refs_of_none rfl before
      rw [counts]
      exact inv.sound
    · rintro m ⟨⟩
      exact ⟨owner, real, cut, inv.laid.listed d p mem, tenant,
        fun _ y before => absurd before (Nat.not_lt_zero y), by simp⟩
    · rintro m ⟨⟩ h ⟨⟩
    · rintro m ⟨⟩ -
      rfl
  have tenant : (∀ d, dest ≠ .slabClass d) → (w.mem.slabList c)[index]?.map (fun page =>
      { w with mover := some { sClsid := c, dest := dest, index := index, page := page } }) = some t →
      Inv cfg t := by
    intro outside picked
    obtain ⟨p, here, rfl⟩ := Option.map_eq_some_iff.mp picked
    cases dest with
    | slabClass d => exact absurd rfl (outside d)
    | localTenant | remoteTenant =>
      obtain ⟨⟨owner, cut⟩, room⟩ := even p here
      exact go p owner cut ⟨c, List.mem_of_getElem? here⟩ fun _ => ⟨here, room⟩
  cases dest with
  | slabClass d =>
    obtain ⟨-, picked⟩ := Option.ite_none_right_eq_some.mp called
    obtain ⟨p, here, rfl⟩ := Option.map_eq_some_iff.mp picked
    obtain ⟨owner, cut⟩ := even p here
    exact go p owner cut ⟨c, List.mem_of_getElem? here⟩ fun outside => absurd rfl (outside d)
  | localTenant | remoteTenant => exact tenant (by simp) called

theorem Inv.advance (inv : Inv cfg w) (moving : m ∈ w.mover) (running : m.done = false)
    (inside : m.pos < cfg.perslab m.sClsid) {busy : Nat} (sound : Sound w.held s)
    (book : s.book = w.mem.book)
    (empty : ∀ x, (w.mem.items x).role = .cleared → (s.items x).role = .cleared)
    (emptied : busy = 0 → (s.items ⟨m.page, m.pos⟩).role = .cleared) :
    Inv cfg { w with mem := s, mover := some (m.advance cfg busy) } := by
  have none : (m.advance cfg busy).hold = none := advance_hold m busy
  refine ⟨?_, inv.laid.congr book, ?_, ?_, ?_⟩
  · have counts : World.refs { w with mem := s, mover := some (m.advance cfg busy) } = w.held := by
      funext x
      show w.held x + Hold.counts (m.advance cfg busy).hold x = _
      rw [none]
      rfl
    rwa [counts]
  · rintro m' ⟨⟩
    exact ((inv.scan m moving).frame book empty).advance running inside emptied
  · rintro m' ⟨⟩ h mem
    simp [none] at mem
  · rintro m' ⟨⟩ -
    exact none

/-- What the mover does when it looks at a chunk: it counts it as busy, passes it, cuts it out of
the free list, or takes the item that is there, or that it is a part of, in its hands. -/
inductive Looked (cfg : Config) (w : World) (m : Mover) : World → Prop where
  | busy : Looked cfg w m { w with mover := some (m.advance cfg 1) }
  | pass (empty : (w.mem.items ⟨m.page, m.pos⟩).role = .cleared) :
    Looked cfg w m { w with mover := some (m.advance cfg 0) }
  | cut (free : (w.mem.items ⟨m.page, m.pos⟩).role = .slabbed) :
    Looked cfg w m { w with
      mem := w.mem.cutFree m.sClsid ⟨m.page, m.pos⟩
      mover := some (m.advance cfg 0) }
  | take (it : Chunk) (ch : Option Chunk) (r : Option Chunk × Memory)
    (place : match ch with
      | none => it = ⟨m.page, m.pos⟩
      | some ch => ch = ⟨m.page, m.pos⟩ ∧ (w.mem.items ch).role = .chunk it)
    (linked : (w.mem.items it).role = .linked)
    (two : refcountIncr (w.mem.items it).refcount = 2)
    (room : let s := w.mem.modify it fun i => { i with refcount := 2 }
      r = (none, s) ∨ r = s.rebalanceAlloc m.sClsid m.page (cfg.perslab m.sClsid)
        (cfg.perslab m.sClsid)) :
    Looked cfg w m { w with mem := r.2, mover := some { m with hold := some ⟨it, ch, r.1⟩ } }

theorem look_cases {refs : Chunk → Nat} (sound : Sound refs w.mem)
    (called : w.look cfg m locked now flushed = some t) :
    (m.done = false ∧ m.hold = none ∧ m.pos < w.mem.cut m.page) ∧ Looked cfg w m t := by
  obtain ⟨⟨running, rest, -, inside⟩, called⟩ := Option.ite_none_right_eq_some.mp called
  refine ⟨⟨running, rest, inside⟩, ?_⟩
  -- an item that is looked at, with the part of it that is at the position
  have item : ∀ it ch, (match ch with
        | none => it = ⟨m.page, m.pos⟩
        | some ch => ch = ⟨m.page, m.pos⟩ ∧ (w.mem.items ch).role = .chunk it) →
      (w.mem.items it).role = .linked →
      (let refcount := refcountIncr (w.mem.items it).refcount
        if locked ∨ refcount ≠ 2 then some { w with mover := some (m.advance cfg 1) }
        else
          let mem := w.mem.modify it fun i => { i with refcount := refcount }
          let i := mem.items it
          let r :=
            if (i.exptime ≠ 0 ∧ i.exptime < now) ∨ flushed then (none, mem)
            else
              mem.rebalanceAlloc m.sClsid m.page (cfg.perslab m.sClsid) (cfg.perslab m.sClsid)
          some { w with mem := r.2, mover := some { m with hold := some ⟨it, ch, r.1⟩ } }) = some t →
      Looked cfg w m t := by
    intro it ch place linked called
    dsimp only at called
    split at called
    · cases called
      exact .busy
    · next unlocked =>
      have two : refcountIncr (w.mem.items it).refcount = 2 := by
        by_contra other
        exact unlocked (.inr other)
      rw [two] at called
      cases called
      refine .take it ch _ place linked two ?_
      split
      · exact .inl rfl
      · exact .inr rfl
  cases role : (w.mem.items ⟨m.page, m.pos⟩).role with
  | slabbed =>
    simp only [role, reduceIte] at called
    cases called
    exact .cut role
  | cleared =>
    simp only [role] at called
    cases called
    exact .pass role
  | plain =>
    simp only [role] at called
    cases called
    exact .busy
  | linked =>
    simp only [role] at called
    exact item ⟨m.page, m.pos⟩ none rfl role called
  | chunk head =>
    simp only [role] at called
    cases headRole : (w.mem.items head).role with
    | slabbed => simp [headRole] at called
    | cleared => exact absurd role (sound.role_ne_chunk (by simp [headRole]) _)
    | plain | chunk =>
      simp only [headRole] at called
      cases called
      exact .busy
    | linked =>
      simp only [headRole] at called
      exact item head (some ⟨m.page, m.pos⟩) ⟨rfl, role⟩ headRole called

theorem take_sound {held : Chunk → Nat} (sound : Sound held s)
    (linked : (s.items it).role = .linked) (two : refcountIncr (s.items it).refcount = 2) :
    held it = 0 ∧
      Sound (update held it 1) (s.modify it fun i => { i with refcount := 2 }) := by
  have few := sound.few it
  have counted := sound.count it (.inr linked)
  rw [linked] at counted
  change _ = held it + 1 at counted
  refine ⟨?_, (sound.touch it rfl rfl (fun _ => rfl) (fun _ => by rw [linked]; rfl)
    (fun _ => .inr linked) (by decide)).1⟩
  rw [counted] at two
  unfold refcountIncr at two
  omega

/-- Whether the item is to be kept or not, the memory afterwards is as `slab_rebalance_alloc` leaves
it. -/
theorem take_provided {held : Chunk → Nat} {c page perslab tries : Nat} (sound : Sound held s)
    (room : r = (none, s) ∨ r = s.rebalanceAlloc c page perslab tries) :
    Provided c page perslab held s r := by
  rcases room with rfl | rfl
  · exact ⟨sound, rfl, rfl, fun _ _ => rfl, by simp⟩
  · exact sound.rebalanceAlloc c page perslab tries

theorem Inv.take (inv : Inv cfg w) (moving : m ∈ w.mover) (running : m.done = false)
    (sound : Sound w.held w.mem) {ch : Option Chunk}
    (place : match ch with
      | none => it = ⟨m.page, m.pos⟩
      | some ch => ch = ⟨m.page, m.pos⟩ ∧ (w.mem.items ch).role = .chunk it)
    (linked : (w.mem.items it).role = .linked) (two : refcountIncr (w.mem.items it).refcount = 2)
    (provided : Provided m.sClsid m.page (cfg.perslab m.sClsid) (update w.held it 1)
      (w.mem.modify it fun i => { i with refcount := 2 }) r) :
    Inv cfg { w with mem := r.2, mover := some { m with hold := some ⟨it, ch, r.1⟩ } } := by
  obtain ⟨alone, taken⟩ := take_sound sound linked two
  have roles : ∀ x, ((w.mem.modify it fun i => { i with refcount := 2 }).items x).role
      = (w.mem.items x).role := by
    intro x
    rw [modify_items]
    split
    · next same => rw [same]
    · rfl
  -- only chunks of the free list have changed their role
  have stays : ∀ x, (w.mem.items x).role ≠ .slabbed → (r.2.items x).role = (w.mem.items x).role := by
    intro x notFree
    rw [provided.items x (by rwa [roles]), roles]
  have scan := (inv.scan m moving).frame provided.book fun x empty => by
    rwa [stays x (by simp [empty])]
  have fresh : ∀ x ∈ r.1, (r.2.items x).role = .plain ∧ w.held x = 0 ∧ (r.2.items x).chunks = [] ∧
      x.page ≠ m.page ∧ x ≠ it := by
    intro x mem
    obtain ⟨free, -, outside, plain, chain⟩ := provided.fresh x mem
    rw [roles] at free
    refine ⟨plain, sound.refs_eq_zero (by simp [free]), chain, fun same => ?_, fun same => ?_⟩
    · have inside := (sound.placed x (by simp [free])).1
      rw [same, (inv.scan m moving).cut] at inside
      exact outside ⟨same, inside⟩
    · simp [same, linked] at free
  refine ⟨?_, inv.laid.congr provided.book, ?_, ?_, ?_⟩
  · have counts : World.refs { w with
        mem := r.2, mover := some { m with hold := some ⟨it, ch, r.1⟩ } }
        = match r.1 with
          | none => update w.held it 1
          | some x => update (update w.held it 1) x 1 := by
      funext x
      show w.held x + ((if x = it then 1 else 0) + if r.1 = some x then 1 else 0) = _
      cases new : r.1 with
      | none =>
        by_cases same : x = it
        · simp [same, alone]
        · simp [same]
      | some y =>
        obtain ⟨-, unheld, -, -, other⟩ := fresh y new
        by_cases mine : x = y
        · subst mine
          simp [other, unheld]
        · by_cases same : x = it
          · subst same
            simp [mine, Ne.symm mine, alone]
          · simp [mine, Ne.symm mine, same]
    rw [counts]
    exact provided.sound
  · rintro m' ⟨⟩
    exact ⟨scan.owner, scan.real, scan.cut, scan.known, scan.tenant, scan.behind, scan.finished⟩
  · rintro m' ⟨⟩ h ⟨⟩
    refine ⟨(stays it (by simp [linked])).trans linked, alone, ?_, fun x mem => ?_⟩
    · cases ch with
      | none => exact place
      | some part => exact ⟨place.1, (stays part (by simp [place.2])).trans place.2⟩
    · obtain ⟨plain, unheld, chain, outside, -⟩ := fresh x mem
      exact ⟨plain, unheld, chain, outside⟩
  · rintro m' ⟨⟩ done
    simp [running] at done

theorem Inv.look (inv : Inv cfg w) (called : step cfg w (.look locked now flushed) = some t) :
    Inv cfg t ∧ ∀ m ∈ w.mover, ∀ k, t.mem.find k = w.mem.find k := by
  obtain ⟨m, moving, called⟩ := Option.bind_eq_some_iff.mp called
  obtain ⟨⟨running, rest, inside⟩, looked⟩ := look_cases inv.sound called
  have scan := inv.scan m moving
  rw [scan.cut] at inside
  have none : w.hold = none := by
    rwa [World.hold, moving]
  have held : w.refs = w.held := by
    funext x
    rw [World.refs, none]
    rfl
  have sound := inv.sound
  rw [held] at sound
  cases looked with
  | busy => exact ⟨inv.advance moving running inside sound rfl (fun _ => id) (by simp), by simp⟩
  | pass empty =>
    exact ⟨inv.advance moving running inside sound rfl (fun _ => id) (fun _ => empty), by simp⟩
  | cut free =>
    obtain ⟨cut, touched⟩ := sound.cutFree free
    rw [scan.owner] at cut touched
    have alone := sound.role_ne_chunk (x := ⟨m.page, m.pos⟩) (by simp [free])
    refine ⟨inv.advance moving running inside cut touched.book (fun x empty => ?_) fun _ => ?_,
      fun _ _ k => ?_⟩
    · rwa [touched.items x (fun same => by simp [same, free] at empty) (alone x)]
    · simp [Memory.cutFree, Memory.clear]
    · refine sound.find_touched touched rfl (by simp [free]) fun here => ?_
      have linked := ((sound.assoc k _).mp here).1
      simp [free] at linked
  | take it ch r place linked two room =>
    obtain ⟨-, taken⟩ := take_sound sound linked two
    have provided := take_provided taken room
    exact ⟨inv.take moving running sound place linked two provided,
      fun _ _ k => (provided.find taken k).trans (find_refcount ..)⟩

theorem Holds.refs {h : Hold} (holds : Holds w.mem w.held m h) (here : w.hold = some h) :
    w.refs h.it = 1 ∧ (h.new = none → update w.refs h.it 0 = w.held) ∧
      ∀ x ∈ h.new, update (update w.refs h.it 0) x 0 = w.held := by
  have counts : ∀ x, w.refs x
      = w.held x + ((if x = h.it then 1 else 0) + if h.new = some x then 1 else 0) := by
    intro x
    rw [World.refs, here]
    rfl
  have other : h.new ≠ some h.it := by
    intro same
    have plain := (holds.fresh h.it same).1
    simp [holds.linked] at plain
  refine ⟨by simp [counts, holds.alone, other], fun none => ?_, fun x new => ?_⟩
  · funext y
    by_cases same : y = h.it
    · simp [same, holds.alone]
    · simp [same, counts, none]
  · have new : h.new = some x := new
    funext y
    by_cases mine : y = x
    · simp [mine, (holds.fresh x new).2.1]
    · by_cases same : y = h.it
      · subst same
        simp [mine, holds.alone]
      · simp [mine, same, counts, new, Ne.symm mine]

theorem Holds.inPage {h : Hold} {refs : Chunk → Nat} (holds : Holds w.mem w.held m h)
    (sound : Sound refs w.mem) : m.pos < w.mem.cut m.page ∧
      (h.it.page = m.page ∨ ∃ c ∈ (w.mem.items h.it).chunks, c.page = m.page) := by
  obtain ⟨it, ch, new⟩ := h
  have place := holds.place
  cases ch with
  | none =>
    have place : it = ⟨m.page, m.pos⟩ := place
    have linked : (w.mem.items it).role = .linked := holds.linked
    have inside := (sound.placed it (by simp [linked])).1
    rw [place] at inside
    exact ⟨inside, .inl (by rw [place])⟩
  | some ch =>
    obtain ⟨place, part⟩ : ch = ⟨m.page, m.pos⟩ ∧ (w.mem.items ch).role = .chunk it := place
    have inside := (sound.placed ch (by simp [part])).1
    rw [place] at inside
    exact ⟨inside, .inr ⟨ch, (sound.chunk ch it).mp part, by rw [place]⟩⟩

theorem ne_of_cleared {x y : Chunk} (empty : (s.items x).role = .cleared)
    (used : (s.items y).role ≠ .cleared) : x ≠ y := by
  rintro rfl
  exact used empty

theorem Inv.act (inv : Inv cfg w) (moving : m ∈ w.mover) (called : w.act cfg m = some t) :
    Inv cfg t ∧ Kept m.page w.mem t.mem := by
  cases held : m.hold with
  | none => simp [World.act, held] at called
  | some h =>
  have here : w.hold = some h := by
    rwa [World.hold, moving]
  have holds := inv.hold m moving h held
  have running : m.done = false := by
    by_contra done
    have := inv.rest m moving (by simpa using done)
    simp [held] at this
  obtain ⟨mine, released, swapped⟩ := holds.refs here
  obtain ⟨inside, inPage⟩ := holds.inPage inv.sound
  rw [(inv.scan m moving).cut] at inside
  have linked := holds.linked
  obtain ⟨it, ch, new⟩ := h
  dsimp only at mine released swapped inPage linked
  have used : (w.mem.items it).role ≠ .cleared := by simp [linked]
  cases new with
  | none =>
    -- the item is thrown out, and its chunks are met again as free ones
    have called : some { w with mem := w.mem.throwOut it, mover := some (m.advance cfg 1) }
        = some t := by
      rw [← called]
      cases ch <;> simp [World.act, held]
    cases called
    obtain ⟨sound, touched, assoc⟩ := inv.sound.throwOut linked mine
    rw [released rfl] at sound
    refine ⟨inv.advance moving running inside sound touched.book (fun x empty => ?_) (by simp),
      fun k => ?_⟩
    · rwa [touched.items x (ne_of_cleared empty used) (by simp [empty])]
    · by_cases taken : k = (w.mem.items it).key
      · right
        refine ⟨?_, it, (inv.sound.assoc k it).mpr ⟨linked, taken.symm⟩, inPage⟩
        show (w.mem.throwOut it).find k = none
        rw [Memory.find, assoc, taken, update_self]
        rfl
      · left
        refine inv.sound.find_touched touched (by rw [assoc, update_of_ne taken])
          (by simp [linked]) fun same => ?_
        exact taken ((inv.sound.assoc k it).mp same).2.symm
  | some x =>
    obtain ⟨fresh, -, chain, -⟩ := holds.fresh x rfl
    cases ch with
    | none =>
      simp only [World.act, held] at called
      cases called
      have place : it = ⟨m.page, m.pos⟩ := holds.place
      have moved := inv.sound.rescue_spec linked mine fresh
      have sound := inv.sound.rescue linked mine fresh chain
      rw [swapped x rfl] at sound
      refine ⟨inv.advance moving running inside sound moved.book (fun y empty => ?_) fun _ => ?_,
        fun k => .inl (inv.sound.find_rescue linked mine fresh k)⟩
      · rw [moved.others y (ne_of_cleared empty used) (ne_of_cleared empty (by simp [fresh]))
          (inv.sound.not_mem_chunks it (by simp [empty]))]
        exact empty
      · rw [← place, moved.gone]
    | some ch =>
      simp only [World.act, held] at called
      cases called
      obtain ⟨rfl, part⟩ : ch = ⟨m.page, m.pos⟩ ∧ (w.mem.items ch).role = .chunk it := holds.place
      have moved := inv.sound.rescueChunk_spec linked mine part fresh
      have sound := inv.sound.rescueChunk linked mine part fresh chain
      rw [swapped x rfl] at sound
      refine ⟨inv.advance moving running inside sound moved.book (fun y empty => ?_) fun _ => ?_,
        fun k => .inl (inv.sound.find_rescueChunk linked mine part fresh k)⟩
      · rw [moved.others y (ne_of_cleared empty used) (ne_of_cleared empty (by simp [part]))
          (ne_of_cleared empty (by simp [fresh]))]
        exact empty
      · rw [moved.gone]

/-! ### The page is handed out -/

theorem Inv.hold_of_done (inv : Inv cfg w) (moving : m ∈ w.mover) (done : m.done) :
    w.hold = none := by
  rw [World.hold, moving]
  exact inv.rest m moving done

theorem Inv.empty_of_done (inv : Inv cfg w) (moving : m ∈ w.mover) (done : m.done) (x : Chunk)
    (here : x.page = m.page) : (w.mem.items x).role = .cleared := by
  have scan := inv.scan m moving
  by_contra used
  have inside := (inv.sound.placed x used).1
  rw [here, scan.cut] at inside
  apply used
  have empty := (scan.finished done).2 x.index inside
  rwa [← here] at empty

theorem Scanning.handedPage (scan : Scanning cfg w.mem m) : m.handedPage w.mem = some m.page := by
  unfold Mover.handedPage
  split
  · rfl
  · next other => exact (scan.tenant fun d same => other d same).1

theorem Scanning.handed_le (scan : Scanning cfg w.mem m) (laid : Laid cfg w.mem) :
    m.handed cfg ≤ w.mem.mapped m.page := by
  unfold Mover.handed
  dsimp only
  split
  · have within := laid.within m.page
    rwa [scan.cut, scan.owner, Nat.mul_comm] at within
  · next other => exact (scan.tenant fun d same => other d same).2

theorem Laid.overlaps {refs : Chunk → Nat} (laid : Laid cfg s) (sound : Sound refs s)
    {p len : Nat} (known : p < s.pages) (some : 0 < len) (room : len ≤ s.mapped p) {x : Chunk}
    (used : (s.items x).role ≠ .cleared) (overlaps : s.Overlaps cfg x (s.base p) len) :
    x.page = p := by
  by_contra other
  obtain ⟨inside, -⟩ := sound.placed x used
  have knownX : x.page < s.pages := by
    by_contra beyond
    rw [(laid.fresh _ (Nat.le_of_not_lt beyond)).1] at inside
    exact Nat.not_lt_zero _ inside
  have within := laid.within x.page
  have fits : (x.index + 1) * cfg.size (s.owner x.page) ≤ s.mapped x.page :=
    Nat.le_trans (Nat.mul_le_mul_right _ inside) within
  have positive := cfg.size_pos (s.owner x.page)
  have grows : x.index * cfg.size (s.owner x.page) < (x.index + 1) * cfg.size (s.owner x.page) :=
    Nat.mul_lt_mul_of_pos_right (Nat.lt_succ_self _) positive
  obtain ⟨left, right⟩ := overlaps
  rcases laid.apart x.page p knownX known other with none | none | before | after <;> omega

theorem Sound.unreferenced {refs : Chunk → Nat} (sound : Sound refs s) {x : Chunk}
    (empty : (s.items x).role = .cleared) :
    (∀ c, x ∉ s.slots c) ∧ (s.items x).role ≠ .linked ∧ (∀ k, s.assoc k ≠ some x) ∧
      (∀ head, (s.items x).role ≠ .chunk head) ∧ ∀ it, x ∉ (s.items it).chunks := by
  refine ⟨fun c mem => ?_, by simp [empty], fun k here => ?_, by simp [empty],
    fun it => sound.not_mem_chunks it (by simp [empty])⟩
  · have free := ((sound.slots c x).mp mem).1
    simp [empty] at free
  · have linked := ((sound.assoc k x).mp here).1
    simp [empty] at linked

theorem Inv.unreferenced (inv : Inv cfg w) (moving : m ∈ w.mover) (done : m.done) :
    Unreferenced cfg w.mem (w.mem.base m.page) (m.handed cfg) := by
  have scan := inv.scan m moving
  have some : 0 < m.handed cfg := by
    have bytes := Nat.mul_pos (cfg.size_pos m.sClsid) (scan.finished done).1
    unfold Mover.handed
    dsimp only
    split
    · exact bytes
    · exact Nat.lt_trans bytes (cfg.lt_adjustSize _)
  intro x overlaps
  apply inv.sound.unreferenced
  by_contra used
  have here := inv.laid.overlaps inv.sound scan.known some (scan.handed_le inv.laid) used overlaps
  exact used (inv.empty_of_done moving done x here)

theorem find_elsewhere {s' : Memory} {refs : Chunk → Nat} {p : Nat} (sound : Sound refs s)
    (empty : ∀ x, x.page = p → (s.items x).role = .cleared) (assoc : s'.assoc = s.assoc)
    (items : ∀ x, x.page ≠ p → s'.items x = s.items x) (k : Bytes) : s'.find k = s.find k := by
  have stays : ∀ x, (s.items x).role ≠ .cleared → s'.items x = s.items x :=
    fun x used => items x fun here => used (empty x here)
  cases here : s.assoc k with
  | none => simp [Memory.find, here, assoc]
  | some it =>
    obtain ⟨linked, -⟩ := (sound.assoc k it).mp here
    refine find_congr here (by rw [assoc, here]) (stays it (by simp [linked])) fun c mem => stays c ?_
    rw [(sound.chunk c it).mpr mem]
    simp

theorem inv_rested (idle : w.hold = none) (sound : Sound w.refs s) (laid : Laid cfg s) :
    Inv cfg { w with mem := s, mover := none } := by
  refine ⟨?_, laid, by simp, by simp, by simp⟩
  have counts : World.refs { w with mem := s, mover := none } = w.refs := refs_of_none rfl idle
  rwa [counts]

theorem Scanning.not_mem_pool (scan : Scanning cfg w.mem m) (laid : Laid cfg w.mem) :
    m.page ∉ w.mem.slabList 0 := by
  intro mem
  have owner := laid.pool _ mem
  have real := scan.real
  rw [← scan.owner, owner] at real
  omega

theorem Inv.finishClass (inv : Inv cfg w) (moving : m ∈ w.mover) (done : m.done) {d : Nat}
    (dest : m.dest = .slabClass d) (called : w.finish cfg m = some t) :
    Inv cfg t ∧ ∀ k, t.mem.find k = w.mem.find k := by
  have scan := inv.scan m moving
  have laid := inv.laid
  have idle := inv.hold_of_done moving done
  have empty := inv.empty_of_done moving done
  have unlisted := scan.not_mem_pool laid
  have within := scan.handed_le laid
  rw [Mover.handed, dest] at within
  dsimp only at within
  -- the last entry of the class is dropped, and the page is listed for the other one
  let dropped := update w.mem.slabList m.sClsid (w.mem.slabList m.sClsid).dropLast
  let lists := update dropped d (dropped d ++ [m.page])
  have listed : ∀ e, ∀ q ∈ lists e, q ∈ w.mem.slabList e ∨ q = m.page := by
    intro e q mem
    exact (mem_update_append mem).imp_left (mem_of_mem_update (List.dropLast_subset _))
  have pool : dropped 0 = w.mem.slabList 0 :=
    update_of_ne (by have := scan.real; omega) ..
  simp only [World.finish, done, dest, reduceIte] at called
  split at called
  · next real =>
    cases called
    let s : Memory := { w.mem with slabList := lists }
    have sound : Sound w.refs s := inv.sound.congr rfl
    have still : lists 0 = w.mem.slabList 0 := (update_of_ne (by omega) ..).trans pool
    refine ⟨inv_rested idle (sound.split cfg _ empty real) (laid.cutPage (split_book s ..)
      (Nat.le_trans (div_mul_size_le ..) within) scan.known listed (fun mem => ?_) ?_), fun k => ?_⟩
    · rw [show s.slabList 0 = _ from still] at mem
      exact absurd mem unlisted
    · rw [show s.slabList 0 = _ from still]
      exact laid.nodup
    · exact find_elsewhere inv.sound empty (split_assoc s ..)
        (fun x other => split_items s cfg _ d _ other) k
  · next pooled =>
    cases called
    have none : d = 0 := by omega
    subst none
    have extended : lists 0 = w.mem.slabList 0 ++ [m.page] := by
      rw [← pool]
      exact update_self ..
    refine ⟨inv_rested idle ((inv.sound.rebook 0 0 empty).congr rfl) (laid.cutPage rfl (by simp)
      scan.known listed (fun _ => rfl) ?_), fun _ => rfl⟩
    show (lists 0).Nodup
    rw [extended, List.nodup_append]
    refine ⟨laid.nodup, by simp, fun q mem r last same => unlisted ?_⟩
    rwa [← List.mem_singleton.mp last, ← same]

theorem Inv.finishTenant (inv : Inv cfg w) (moving : m ∈ w.mover) (done : m.done)
    (outside : ∀ d, m.dest ≠ .slabClass d) (called : w.finish cfg m = some t) :
    Inv cfg t ∧ ∀ k, t.mem.find k = w.mem.find k := by
  have scan := inv.scan m moving
  have laid := inv.laid
  have idle := inv.hold_of_done moving done
  have empty := inv.empty_of_done moving done
  let lists := update w.mem.slabList m.sClsid
    ((w.mem.slabList m.sClsid).eraseIdx m.index)
  have called : some { w with
      mem := { w.mem with
        slabList := lists
        cut := update w.mem.cut m.page 0
        mapped := if m.dest = .localTenant then update w.mem.mapped m.page 0
          else w.mem.mapped }
      mover := none } = some t := by
    rw [← called]
    unfold World.finish
    have page := scan.handedPage
    cases dest : m.dest with
    | slabClass d => exact absurd dest (outside d)
    | localTenant | remoteTenant =>
      simp only [done, reduceIte, page, Option.map_some]
      rfl
  cases called
  have sound := inv.sound.rebook (w.mem.owner m.page) 0 empty
  rw [update_eq_self] at sound
  -- only the page that goes has less bytes than before
  have mapped : ∀ q, (if m.dest = .localTenant then update w.mem.mapped m.page 0
      else w.mem.mapped) q = w.mem.mapped q ∨ q = m.page ∧ (if m.dest = .localTenant then
        update w.mem.mapped m.page 0 else w.mem.mapped) q = 0 := by
    intro q
    split
    · by_cases same : q = m.page <;> simp [same]
    · simp
  have pool : lists 0 = w.mem.slabList 0 :=
    update_of_ne (by have := scan.real; omega) ..
  refine ⟨inv_rested idle (sound.congr rfl) ⟨fun q => ?_, fun p q knownP knownQ other => ?_,
    fun q beyond => ?_, fun e q mem => ?_, fun q mem => ?_, ?_⟩, fun _ => rfl⟩
  · dsimp only
    by_cases same : q = m.page
    · simp [same]
    · rw [update_of_ne same, (mapped q).resolve_right (by simp [same])]
      exact laid.within q
  · dsimp only
    have apart := laid.apart p q knownP knownQ other
    rcases mapped p with sameP | ⟨-, noneP⟩
    · rcases mapped q with sameQ | ⟨-, noneQ⟩
      · rwa [sameP, sameQ]
      · exact .inr (.inl noneQ)
    · exact .inl noneP
  · have other : q ≠ m.page := by
      have := scan.known
      have beyond : w.mem.pages ≤ q := beyond
      omega
    dsimp only
    rw [update_of_ne other, (mapped q).resolve_right (by simp [other])]
    exact laid.fresh q beyond
  · exact laid.listed e q (mem_of_mem_update (fun _ => List.mem_of_mem_eraseIdx) mem)
  · have mem : q ∈ lists 0 := mem
    rw [pool] at mem
    exact laid.pool q mem
  · show (lists 0).Nodup
    rw [pool]
    exact laid.nodup

theorem Inv.finish (inv : Inv cfg w) (moving : m ∈ w.mover) (called : w.finish cfg m = some t) :
    (m.done ∧ Inv cfg t) ∧ ∀ k, t.mem.find k = w.mem.find k := by
  have done : m.done := by
    by_contra running
    simp [World.finish, running] at called
  cases dest : m.dest with
  | slabClass d =>
    obtain ⟨next, same⟩ := inv.finishClass moving done dest called
    exact ⟨⟨done, next⟩, same⟩
  | localTenant | remoteTenant =>
    obtain ⟨next, same⟩ := inv.finishTenant moving done (by simp [dest]) called
    exact ⟨⟨done, next⟩, same⟩

end Mover

/-! ### Runs -/

section Runs

variable {cfg : Config}

/-- A step of the mover or of a connection keeps the references and the scan right. -/
theorem inv_step (w : World) (a : Action) (t : World) (inv : Inv cfg w) (even : Even cfg w a)
    (called : step cfg w a = some t) : Inv cfg t := by
  cases a with
  | alloc => exact inv.alloc called
  | attach => exact inv.attach called
  | fill => exact inv.fill called
  | fillChunk => exact inv.fillChunk called
  | link => exact inv.link called
  | get => exact inv.get even called
  | rewrite => exact inv.rewrite called
  | remove => exact inv.remove called
  | unlink => exact inv.unlink called
  | repair => exact inv.repair even called
  | newslab => exact inv.newslab even called
  | receive => exact inv.receive called
  | receiveRemote => exact inv.receiveRemote called
  | start => exact inv.start even called
  | look => exact (inv.look called).1
  | act =>
    obtain ⟨m, moving, called⟩ := Option.bind_eq_some_iff.mp called
    exact (inv.act moving called).1
  | finish =>
    obtain ⟨m, moving, called⟩ := Option.bind_eq_some_iff.mp called
    exact (inv.finish moving called).1.2

theorem Inv.vacates {w : World} (inv : Inv cfg w) (a : Action) : Vacates cfg w a := by
  intro m moving t called
  cases a with
  | look => exact fun k => .inl ((inv.look called).2 m moving k)
  | act =>
    obtain ⟨m', moving', called⟩ := Option.bind_eq_some_iff.mp called
    cases Option.mem_unique moving moving'
    exact (inv.act moving called).2
  | finish =>
    obtain ⟨m', moving', called⟩ := Option.bind_eq_some_iff.mp called
    cases Option.mem_unique moving moving'
    obtain ⟨⟨done, -⟩, same⟩ := inv.finish moving called
    refine ⟨fun k => .inl (same k), fun p picked => ?_⟩
    rw [(inv.scan m moving).handedPage] at picked
    cases picked
    exact inv.unreferenced moving done
  | _ => trivial

/-- In every run that picks evenly cut pages, the mover loses nothing but what it throws out of its
page, and no chunk with a byte among those handed out is in use. -/
theorem released_page_unreferenced (as : List Action)
    (even : Run.Along (step cfg) (Even cfg) {} as) : Run.Along (step cfg) (Vacates cfg) {} as :=
  Run.along_of_invariant inv_step (fun _ a inv _ => inv.vacates a) (inv_initial cfg) even

/-- Whatever a connection or the mover refers to counts its references and is in no free list. -/
def CountsReferences (w : World) : Prop := ∀ x, 0 < w.refs x →
  (w.mem.items x).refcount = w.refs x + (w.mem.items x).role.links ∧ ∀ c, x ∉ w.mem.slots c

theorem references_are_to_items (as : List Action) (even : Run.Along (step cfg) (Even cfg) {} as) :
    Run.Always (step cfg) CountsReferences {} as := by
  refine Run.always_mono (fun w inv x some => ?_) (Run.always_of_invariant inv_step (inv_initial cfg) even)
  have item := inv.sound.idle x some
  refine ⟨inv.sound.count x item, fun c free => ?_⟩
  rcases item with plain | linked <;> simp_all [inv.sound.slots]

end Runs

/-! ### A page with more chunks than are scanned -/

/-- System pages of 64 KB, slab pages of 1 MB, and chunks of 64 KB in class 1 -/
def largePages : Config where
  pagesize := 65536
  slabPageSize := 2 ^ 20
  size := fun c => if c = 1 then 65536 else 262144
  pagesize_pos := by decide
  size_pos := fun c => by split <;> decide

/-- An item of two chunks and a small one are stored in the first page of class 2. When that goes to
a tenant, the small one and a part of the large one are moved to the second page, and then the large
one is thrown out because it was flushed. -/
def evacuated : List Action :=
  [.newslab 2 0, .alloc 2, .fill ⟨0, 3⟩ [1] 7 0 [10], .alloc 2, .attach ⟨0, 3⟩ ⟨0, 2⟩,
    .fillChunk ⟨0, 2⟩ [11], .link ⟨0, 3⟩, .remove ⟨0, 3⟩,
    .alloc 2, .fill ⟨0, 1⟩ [2] 8 0 [12], .link ⟨0, 1⟩, .remove ⟨0, 1⟩,
    .newslab 2 (2 ^ 21), .start 2 0 .localTenant,
    .look false 0 false, .look false 0 false, .act, .look false 0 false, .act,
    .look false 5 true, .act,
    .look false 0 false, .look false 0 false, .look false 0 false, .look false 0 false, .finish]

theorem evacuated_page_unreferenced : Run.Along (step largePages) (Even largePages) {} evacuated ∧
      (Run.exec (step largePages) {} evacuated).map (fun w => (w.mem.find [1], w.mem.find [2]))
        = some (none, some (8, 0, [12])) ∧
      Run.Along (step largePages) (Vacates largePages) {} evacuated :=
  ⟨by decide +kernel, by decide +kernel,
    released_page_unreferenced evacuated (by decide +kernel)⟩

theorem references_while_evacuated : Run.Always (step largePages) CountsReferences {} evacuated :=
  references_are_to_items evacuated (by decide +kernel)

/-- Class 1 gets a page of 1088 KB from a tenant, and gives it to another one. -/
def passedOn : List Action :=
  .receive 1 0 (2 ^ 20 + 65536) :: .start 1 0 .localTenant ::
    List.replicate 16 (.look false 0 false)

/-- The page has 17 chunks and 16 are scanned. When it is handed out, the last one is in the free
list. -/
theorem released_page_has_free_chunk :
    ¬ Run.Along (step largePages) (Vacates largePages) {} (passedOn ++ [.finish]) ∧
      (Run.exec (step largePages) {} passedOn).map
        (fun w => (w.mem.slots 1, w.mem.base 0, w.mover.map (·.handed largePages)))
        = some ([⟨0, 16⟩], 0, some (2 ^ 20 + 65536)) := by
  have reached : (Run.exec (step largePages) {} passedOn).map
      (fun w => (w.mem.slots 1, w.mem.base 0, w.mover.map (·.handed largePages)))
      = some ([⟨0, 16⟩], 0, some (2 ^ 20 + 65536)) := by decide +kernel
  refine ⟨fun all => ?_, reached⟩
  have last : (Run.exec (step largePages) {} passedOn).map
      (fun w => ((step largePages w .finish).isSome, w.mem.owner 0, w.mover.map (·.handedPage w.mem)))
      = some (true, 1, some (some 0)) := by decide +kernel
  obtain ⟨w, done, state⟩ := Option.map_eq_some_iff.mp reached
  rw [done] at last
  simp only [Option.map_some, Option.some.injEq, Prod.mk.injEq] at state last
  obtain ⟨slots, base, handed⟩ := state
  obtain ⟨finishes, owner, picked⟩ := last
  obtain ⟨m, moving, handed⟩ := Option.map_eq_some_iff.mp handed
  rw [moving, Option.map_some, Option.some.injEq] at picked
  obtain ⟨t, finished⟩ := Option.isSome_iff_exists.mp finishes
  have vacates := (Run.along_iff _ _ _ _).mp all passedOn .finish [] w rfl done m moving t finished
  have unreferenced := vacates.2 0 picked
  rw [base, handed] at unreferenced
  have overlaps : w.mem.Overlaps largePages ⟨0, 16⟩ 0 (2 ^ 20 + 65536) := by
    simp [Memory.Overlaps, base, owner, largePages]
  exact (unreferenced ⟨0, 16⟩ overlaps).1 1 (by simp [slots])

end MemExchange.Evacuation
