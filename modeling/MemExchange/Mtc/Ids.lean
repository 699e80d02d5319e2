import MemExchange.Mtc.Node
import MemExchange.Lib.Decimal

/-!
# The ids of other trackers

`recv_msg` makes an id of the sender's address by taking the dots out of its text. Addresses that have
their dots at different places of the same digits get the same id, and short addresses get ids that
belong to local tenants, whose ids are their ports.
-/
namespace MemExchange.Mtc

open Decimal

structure Address where
  a : Fin 256
  b : Fin 256
  c : Fin 256
  d : Fin 256
  deriving DecidableEq, Repr

def removeChar (t : Text) (c : Char) : Text := t.filter (· ≠ c)

def atoll (t : Text) : Int := ((readInt t).map Prod.fst).getD 0

namespace Address

/-- `inet_ntop` -/
def text (x : Address) : Text :=
  digits x.a ++ '.' :: (digits x.b ++ '.' :: (digits x.c ++ '.' :: digits x.d))

/-- `sender_id` of `recv_msg`. -/
def senderId (x : Address) : Int := atoll (removeChar x.text '.')

def octets (x : Address) : Text := digits x.a ++ (digits x.b ++ (digits x.c ++ digits x.d))

def count (o : Fin 256) : Nat := if o < 10 then 1 else if o < 100 then 2 else 3

def counts (x : Address) : List Nat := [count x.a, count x.b, count x.c, count x.d]

end Address

/-- The ids of two trackers differ, and are no ids of local tenants. -/
def Identified (x y : Address) : Prop :=
  x.senderId ≠ y.senderId ∧ remoteIdBase ≤ x.senderId ∧ remoteIdBase ≤ y.senderId

/-- No address begins with a zero, each has six digits at least, and they have as many digits in
every octet, or not as many in all. -/
structure Regular (x y : Address) : Prop where
  lead : x.a ≠ 0 ∧ y.a ≠ 0
  long : 6 ≤ x.counts.sum ∧ 6 ≤ y.counts.sum
  counts : x.counts = y.counts ∨ x.counts.sum ≠ y.counts.sum

/-! ### Numbers by their digits -/

theorem removeChar_digits (n : Nat) : removeChar (digits n) '.' = digits n := by
  refine List.filter_eq_self.mpr fun c member => ?_
  have digit := allDigits_digits n c member
  by_cases point : c = '.'
  · subst point
    cases digit
  · simpa using point

variable {ds : Text} (x : Address)

theorem removeChar_text : removeChar x.text '.' = x.octets := by
  have split : ∀ t u, removeChar (t ++ '.' :: u) '.' = removeChar t '.' ++ removeChar u '.' := by
    simp [removeChar]
  simp only [Address.text, split, removeChar_digits, Address.octets]

theorem allDigits_octets : AllDigits x.octets :=
  (allDigits_digits _).append ((allDigits_digits _).append ((allDigits_digits _).append
    (allDigits_digits _)))

theorem atoll_digits (hd : AllDigits ds) (some_ : ds ≠ []) : atoll ds = value ds := by
  have sign := readSign_digits hd some_ []
  have span := span_digits hd stops_nil
  rw [List.append_nil] at sign span
  rw [atoll, readInt, sign]
  dsimp only
  rw [span]
  simp [some_]

theorem senderId_eq_value : x.senderId = value x.octets := by
  have some_ : x.octets ≠ [] := by simp [Address.octets, digits_ne_nil]
  rw [Address.senderId, removeChar_text, atoll_digits (allDigits_octets x) some_]

theorem value_singleton {c : Char} (digit : c.isDigit = true) :
    value [c] < 10 ∧ c = Nat.digitChar (value [c]) := by
  obtain ⟨d, small, rfl⟩ := exists_of_isDigit digit
  rw [value_digitChar small]
  exact ⟨small, rfl⟩

/-- Without zeros in front a number has as many digits as it needs. -/
theorem le_value (hd : AllDigits ds) (some_ : ds ≠ []) (lead : ds.head? ≠ some '0') :
    10 ^ (ds.length - 1) ≤ value ds := by
  obtain ⟨c, ds, rfl⟩ := List.exists_cons_of_ne_nil some_
  have first : value [c] ≠ 0 := by
    intro zero
    have := (value_singleton (hd c List.mem_cons_self)).2
    rw [zero] at this
    exact lead (by rw [this]; rfl)
  rw [← List.singleton_append, value_append, List.length_append, List.length_singleton,
    Nat.add_sub_cancel_left]
  nlinarith [Nat.pos_of_ne_zero first, Nat.pow_pos (n := ds.length) (show 0 < 10 by norm_num)]

theorem eq_of_value_eq {es : Text} (hd : AllDigits ds) (he : AllDigits es)
    (lead : ds.head? ≠ some '0') (lead' : es.head? ≠ some '0') (same : value ds = value es) :
    ds = es := by
  induction ds using List.reverseRecOn generalizing es with
  | nil =>
    by_contra some_
    have := le_value he (Ne.symm some_) lead'
    rw [← same] at this
    exact absurd this (by simp [value])
  | append_singleton ds c ih =>
    rcases List.eq_nil_or_concat es with rfl | ⟨es, d, rfl⟩
    · have := le_value hd (by simp) lead
      rw [same] at this
      exact absurd this (by simp [value])
    rw [List.concat_eq_append] at *
    obtain ⟨small, isC⟩ := value_singleton (hd c (by simp))
    obtain ⟨small', isD⟩ := value_singleton (he d (by simp))
    rw [value_append, value_append, List.length_singleton, List.length_singleton] at same
    have init := ih (fun c member => hd c (List.mem_append_left _ member))
      (fun c member => he c (List.mem_append_left _ member))
      (fun zero => lead (by rw [List.head?_append, zero]; rfl))
      (fun zero => lead' (by rw [List.head?_append, zero]; rfl)) (by omega)
    rw [init, isC, isD, show value [c] = value [d] by omega]

/-! ### Which addresses are told apart -/

theorem length_digits (o : Fin 256) : (digits o).length = Address.count o := by
  revert o
  decide +kernel

theorem length_octets : x.octets.length = x.counts.sum := by
  simp [Address.octets, Address.counts, length_digits]

theorem octets_lead {x : Address} (lead : x.a ≠ 0) : x.octets.head? ≠ some '0' := by
  have first : ∀ o : Fin 256, o ≠ 0 → (digits o).head? ≠ some '0' := by decide +kernel
  rw [Address.octets, List.head?_append_of_ne_nil _ (digits_ne_nil _)]
  exact first x.a lead

theorem value_octets {x : Address} (lead : x.a ≠ 0) :
    10 ^ (x.counts.sum - 1) ≤ value x.octets ∧ value x.octets < 10 ^ x.counts.sum := by
  have some_ : x.octets ≠ [] := by simp [Address.octets, digits_ne_nil]
  rw [← length_octets]
  exact ⟨le_value (allDigits_octets x) some_ (octets_lead lead), value_lt (allDigits_octets x)⟩

/-- With as many digits in every octet, the same digits are the same address. -/
theorem eq_of_octets_eq {x y : Address} (counts : x.counts = y.counts)
    (same : x.octets = y.octets) : x = y := by
  have octet : ∀ {o p : Fin 256}, digits o = digits p → o = p := by
    intro o p equal
    rw [Fin.ext_iff, ← value_digits o, equal, value_digits]
  simp only [Address.counts, List.cons.injEq, ← length_digits] at counts
  obtain ⟨a, same⟩ := List.append_inj same counts.1
  obtain ⟨b, same⟩ := List.append_inj same counts.2.1
  obtain ⟨c, d⟩ := List.append_inj same counts.2.2.1
  obtain ⟨xa, xb, xc, xd⟩ := x
  exact Address.mk.injEq .. |>.mpr ⟨octet a, octet b, octet c, octet d⟩

/-- The trackers of the network 10.10.1.x, with the ids they have in `Node`. -/
theorem senderId_eq (h : Fin 256) : Mtc.senderId h = Address.senderId ⟨10, 10, 1, h⟩ := by
  have octets : Address.octets ⟨10, 10, 1, h⟩ = ['1', '0', '1', '0', '1'] ++ digits h := by
    change digits 10 ++ (digits 10 ++ (digits 1 ++ digits h)) = _
    rw [show digits 10 = ['1', '0'] by decide, show digits 1 = ['1'] by decide]
    rfl
  rw [senderId_eq_value, octets, value_append, value_digits,
    show value ['1', '0', '1', '0', '1'] = 10101 from rfl, Mtc.senderId]
  push_cast
  rfl

end MemExchange.Mtc
