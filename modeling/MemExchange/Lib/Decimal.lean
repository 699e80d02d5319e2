import MemExchange.Lib.Double

/-!
# Numbers as text

What `printf` writes for the formats `%f` and `%d`, and what `scanf`, `atof` and `atoi` read.
Exponents, which `%f` never writes, are not read.
-/
namespace Decimal

abbrev Text := List Char

/-! ### Writing -/

/-- The decimal digits of a number, without leading zeros -/
def digits (n : Nat) : Text := Nat.toDigits 10 n

/-- The last `k` digits of a number, with leading zeros -/
def padded : (k n : Nat) → Text
  | 0, _ => []
  | k + 1, n => padded k (n / 10) ++ [Nat.digitChar (n % 10)]

/-- `n` units of `10^-k`, with a point -/
def fixed (k n : Nat) : Text := digits (n / 10 ^ k) ++ '.' :: padded k n

/-- `%.kf` -/
def printFloat (k : Nat) (x : ℚ) : Text :=
  if x < 0 then '-' :: fixed k (Double.nearest (-x * 10 ^ k)).toNat
  else fixed k (Double.nearest (x * 10 ^ k)).toNat

/-- `%d` -/
def printInt (n : Int) : Text := if n < 0 then '-' :: digits n.natAbs else digits n.natAbs

/-! ### Reading -/

def value (ds : Text) : Nat := Nat.ofDigitChars 10 ds 0

/-- A sign, if there is one: whether the number is negative, and the rest -/
def readSign : Text → Bool × Text
  | '-' :: t => (true, t)
  | '+' :: t => (false, t)
  | t => (false, t)

def readPart : Text → Text × Text
  | '.' :: t => t.span Char.isDigit
  | t => ([], t)

/-- Digits with a point among them: the number, and the rest -/
def readUnsigned (t : Text) : Option (ℚ × Text) :=
  let (whole, t) := t.span Char.isDigit
  let (part, t) := readPart t
  if whole = [] ∧ part = [] then none else some (value (whole ++ part) / 10 ^ part.length, t)

/-- `%lf` -/
def readFloat (t : Text) : Option (ℚ × Text) :=
  let (negative, t) := readSign (t.dropWhile Char.isWhitespace)
  (readUnsigned t).map fun (x, t) => (Double.round (if negative then -x else x), t)

def atof (t : Text) : ℚ := ((readFloat t).map Prod.fst).getD 0

/-- `%d` -/
def readInt (t : Text) : Option (Int × Text) :=
  let (negative, t) := readSign (t.dropWhile Char.isWhitespace)
  let (ds, t) := t.span Char.isDigit
  if ds = [] then none else some (if negative then -(value ds : Int) else value ds, t)

/-! ### The value of digits -/

def AllDigits (ds : Text) : Prop := ∀ c ∈ ds, c.isDigit = true

variable {ds es t : Text} {d m : Nat} {c : Char} (k : Nat) (n : Nat) (z : Nat)

theorem AllDigits.append (hd : AllDigits ds) (he : AllDigits es) : AllDigits (ds ++ es) := by
  intro c mem
  rcases List.mem_append.mp mem with mem | mem
  · exact hd c mem
  · exact he c mem

theorem AllDigits.take (hd : AllDigits ds) (k : Nat) : AllDigits (ds.take k) :=
  fun c mem => hd c (List.mem_of_mem_take mem)

theorem AllDigits.drop (hd : AllDigits ds) (k : Nat) : AllDigits (ds.drop k) :=
  fun c mem => hd c (List.mem_of_mem_drop mem)

theorem allDigits_digits : AllDigits (digits n) := fun _ mem =>
  Nat.isDigit_of_mem_toDigits (by decide) (by decide) mem

theorem isDigit_digitChar (small : d < 10) : (Nat.digitChar d).isDigit = true := by
  decide +revert

theorem exists_of_isDigit (digit : c.isDigit = true) : ∃ d < 10, c = Nat.digitChar d := by
  simp only [Char.isDigit, Bool.and_eq_true, decide_eq_true_eq] at digit
  have low : 48 ≤ c.toNat := UInt32.le_iff_toNat_le.mp digit.1
  have high : c.toNat ≤ 57 := UInt32.le_iff_toNat_le.mp digit.2
  refine ⟨c.toNat - 48, by omega, Char.toNat_inj.mp ?_⟩
  rw [Nat.toNat_digitChar_of_lt_ten (by omega)]
  omega

theorem allDigits_padded : AllDigits (padded k n) := by
  induction k generalizing n with
  | zero => exact fun _ mem => (nomatch mem)
  | succ k ih =>
    refine (ih (n / 10)).append fun c mem => ?_
    rw [List.mem_singleton.mp mem]
    exact isDigit_digitChar (Nat.mod_lt _ (by decide))

@[simp] theorem length_padded : (padded k n).length = k := by
  induction k generalizing n with
  | zero => rfl
  | succ k ih => rw [padded, List.length_append, ih, List.length_singleton]

theorem value_append (ds es : Text) : value (ds ++ es) = value ds * 10 ^ es.length + value es := by
  unfold value
  rw [Nat.ofDigitChars_append, Nat.ofDigitChars_eq_ofDigitChars_zero]
  ring

@[simp] theorem value_digits : value (digits n) = n := Nat.ofDigitChars_ten_toDigits

theorem value_digitChar (small : d < 10) : value [Nat.digitChar d] = d := by
  decide +revert

theorem value_zero_cons (ds : Text) : value ('0' :: ds) = value ds := rfl

@[simp] theorem value_padded : value (padded k n) = n % 10 ^ k := by
  induction k generalizing n with
  | zero => simp [padded, value, Nat.mod_one]
  | succ k ih =>
    rw [padded, value_append, ih, value_digitChar (Nat.mod_lt _ (by decide)), List.length_singleton,
      Nat.pow_one, Nat.pow_succ' (n := k), Nat.mod_mul]
    ring

theorem value_lt (hd : AllDigits ds) : value ds < 10 ^ ds.length := by
  induction ds using List.reverseRecOn with
  | nil => decide
  | append_singleton ds c ih =>
    have init := ih fun c mem => hd c (List.mem_append_left _ mem)
    have last : value [c] < 10 := by
      obtain ⟨d, small, rfl⟩ := exists_of_isDigit (hd c (by simp))
      rwa [value_digitChar small]
    rw [value_append, List.length_append, List.length_singleton, Nat.pow_succ]
    omega

theorem value_take (hd : AllDigits ds) (k : Nat) :
    value (ds.take k) = value ds / 10 ^ (ds.length - k) := by
  have split : value ds = value (ds.take k) * 10 ^ (ds.drop k).length + value (ds.drop k) := by
    rw [← value_append, List.take_append_drop]
  rw [← List.length_drop, split, Nat.mul_comm, Nat.mul_add_div (by positivity),
    Nat.div_eq_of_lt (value_lt (hd.drop k)), Nat.add_zero]

/-! ### Reading what was written -/

def Stops (t : Text) : Prop := ∀ c ∈ t.head?, c.isDigit = false

theorem stops_nil : Stops [] := fun _ mem => (nomatch mem)

theorem stops_cons (t : Text) (other : c.isDigit = false) : Stops (c :: t) := by
  intro d mem
  cases mem
  exact other

theorem span_digits (hd : AllDigits ds) (stops : Stops t) :
    (ds ++ t).span Char.isDigit = (ds, t) := by
  have none : t.takeWhile Char.isDigit = [] ∧ t.dropWhile Char.isDigit = t := by
    cases t with
    | nil => exact ⟨rfl, rfl⟩
    | cons c t =>
      have other : c.isDigit = false := stops c rfl
      simp [other]
  rw [List.span_eq_takeWhile_dropWhile, List.takeWhile_append_of_pos hd,
    List.dropWhile_append_of_pos hd, none.1, none.2, List.append_nil]

theorem digits_ne_nil : digits n ≠ [] := Nat.toDigits_ne_nil

theorem readUnsigned_point (hd : AllDigits ds) (some : ds ≠ []) (he : AllDigits es)
    (stops : Stops t) : readUnsigned (ds ++ '.' :: (es ++ t))
      = Option.some ((value (ds ++ es) : ℚ) / 10 ^ es.length, t) := by
  unfold readUnsigned
  rw [span_digits hd (stops_cons _ (by decide))]
  dsimp only
  rw [readPart, span_digits he stops]
  exact if_neg fun both => some both.1

theorem readUnsigned_whole (hd : AllDigits ds) (some : ds ≠ []) :
    readUnsigned ds = Option.some ((value ds : ℚ), []) := by
  have all := span_digits hd stops_nil
  rw [List.append_nil] at all
  unfold readUnsigned
  rw [all]
  dsimp only [readPart]
  rw [if_neg fun both => some both.1, List.append_nil, List.length_nil, pow_zero, div_one]

theorem isDigit_cases (digit : c.isDigit = true) : c.isWhitespace = false ∧ c ≠ '-' ∧ c ≠ '+' := by
  obtain ⟨d, small, rfl⟩ := exists_of_isDigit digit
  clear digit
  decide +revert

theorem readSign_digit (digit : c.isDigit = true) (t : Text) :
    readSign (c :: t) = (false, c :: t) := by
  obtain ⟨-, minus, plus⟩ := isDigit_cases digit
  unfold readSign
  split
  · next same => exact absurd (List.cons.inj same).1 minus
  · next same => exact absurd (List.cons.inj same).1 plus
  · rfl

theorem readSign_digits (hd : AllDigits ds) (some : ds ≠ []) (t : Text) :
    readSign ((ds ++ t).dropWhile Char.isWhitespace) = (false, ds ++ t) := by
  cases ds with
  | nil => exact absurd rfl some
  | cons c ds =>
    have digit := hd c List.mem_cons_self
    rw [List.cons_append, List.dropWhile_cons, if_neg (by rw [(isDigit_cases digit).1]; simp)]
    exact readSign_digit digit _

theorem readFloat_point (hd : AllDigits ds) (some : ds ≠ []) (he : AllDigits es) (stops : Stops t) :
    readFloat (ds ++ '.' :: (es ++ t))
      = Option.some (Double.round ((value (ds ++ es) : ℚ) / 10 ^ es.length), t) := by
  unfold readFloat
  rw [readSign_digits hd some]
  dsimp only
  rw [readUnsigned_point hd some he stops]
  rfl

theorem readFloat_whole (hd : AllDigits ds) (some : ds ≠ []) :
    readFloat ds = Option.some (Double.round (value ds : ℚ), []) := by
  have sign := readSign_digits hd some []
  rw [List.append_nil] at sign
  unfold readFloat
  rw [sign]
  dsimp only
  rw [readUnsigned_whole hd some]
  rfl

theorem value_fixed : value (digits (n / 10 ^ k) ++ padded k n) = n := by
  rw [value_append, value_digits, length_padded, value_padded]
  exact Nat.div_add_mod' n (10 ^ k)

/-- `%lf` reads what `%.kf` wrote, up to its digits and the rounding to a double. -/
theorem readFloat_fixed (stops : Stops t) :
    readFloat (fixed k n ++ t) = some (Double.round ((n : ℚ) / 10 ^ k), t) := by
  have all := readFloat_point (allDigits_digits (n / 10 ^ k)) (digits_ne_nil _) (allDigits_padded k n)
    stops
  rw [value_fixed, length_padded] at all
  rwa [fixed, List.append_assoc]

theorem readInt_printInt (n : Int) (stops : Stops t) : readInt (printInt n ++ t) = some (n, t) := by
  have span := span_digits (allDigits_digits n.natAbs) stops
  by_cases negative : n < 0
  · have sign : readSign ((printInt n ++ t).dropWhile Char.isWhitespace)
        = (true, digits n.natAbs ++ t) := by
      rw [printInt, if_pos negative]
      rfl
    unfold readInt
    rw [sign]
    dsimp only
    rw [span]
    dsimp only
    rw [if_neg (digits_ne_nil _), value_digits, if_pos rfl, Option.some.injEq, Prod.mk.injEq]
    exact ⟨by omega, rfl⟩
  · have sign : readSign ((printInt n ++ t).dropWhile Char.isWhitespace)
        = (false, digits n.natAbs ++ t) := by
      rw [printInt, if_neg negative]
      exact readSign_digits (allDigits_digits _) (digits_ne_nil _) t
    unfold readInt
    rw [sign]
    dsimp only
    rw [span]
    dsimp only
    rw [if_neg (digits_ne_nil _), value_digits, if_neg (by simp), Option.some.injEq, Prod.mk.injEq]
    exact ⟨by omega, rfl⟩

/-! ### Bytes of a text -/

/-- A C string ends in front of the first zero byte. -/
def cString (t : Text) : Text := t.takeWhile (· ≠ '\x00')

def Printable (t : Text) : Prop := ∀ c ∈ t, c ≠ '\x00'

theorem Printable.cString_eq (printable : Printable t) : cString t = t :=
  List.takeWhile_eq_self_iff.mpr fun c mem => decide_eq_true (printable c mem)

theorem printable_nil : Printable [] := fun _ mem => (nomatch mem)

theorem Printable.cons (other : c ≠ '\x00') (printable : Printable t) : Printable (c :: t) := by
  intro d mem
  rcases List.mem_cons.mp mem with rfl | mem
  · exact other
  · exact printable d mem

theorem Printable.append {u : Text} (ht : Printable t) (hu : Printable u) : Printable (t ++ u) := by
  intro c mem
  rcases List.mem_append.mp mem with mem | mem
  · exact ht c mem
  · exact hu c mem

theorem AllDigits.printable (hd : AllDigits ds) : Printable ds := by
  rintro c mem rfl
  exact absurd (hd _ mem) (by decide)

theorem printable_fixed : Printable (fixed k n) :=
  (allDigits_digits _).printable.append ((allDigits_padded k n).printable.cons (by decide))

theorem printable_printInt (n : Int) : Printable (printInt n) := by
  unfold printInt
  split
  · exact (allDigits_digits _).printable.cons (by decide)
  · exact (allDigits_digits _).printable

/-! ### Texts that were cut off -/

/-- How many digits there are in front of the point -/
def wholeDigits (k n : Nat) : Nat := (digits (n / 10 ^ k)).length

theorem wholeDigits_pos : 0 < wholeDigits k n := Nat.length_toDigits_pos

theorem wholeDigits_le_iff {k n : Nat} (pos : 0 < m) : wholeDigits k n ≤ m ↔ n < 10 ^ (m + k) := by
  unfold wholeDigits digits
  rw [Nat.length_toDigits_le_iff (by decide) pos, Nat.div_lt_iff_lt_mul (by positivity), ← Nat.pow_add]

theorem length_fixed : (fixed k n).length = wholeDigits k n + 1 + k := by
  rw [fixed, List.length_append, List.length_cons, length_padded, wholeDigits]
  omega

theorem length_printInt_le {n : Int} {k : Nat} (pos : 0 < k) (small : n.natAbs < 10 ^ k) :
    (printInt n).length ≤ k + 1 := by
  have := (Nat.length_toDigits_le_iff (by decide) pos).mpr small
  unfold printInt digits
  split
  · rw [List.length_cons]
    omega
  · omega

/-- The number that `m` characters of a text of `%.kf` stand for -/
def cutOff (k m n : Nat) : ℚ :=
  if m ≤ wholeDigits k n then (n / 10 ^ (wholeDigits k n + k - m) : Nat)
  else (n / 10 ^ (wholeDigits k n + k - (m - 1)) : Nat) / 10 ^ (m - 1 - wholeDigits k n)

theorem allDigits_zeros : AllDigits (List.replicate z '0') := by
  intro c mem
  rw [List.eq_of_mem_replicate mem]
  decide

theorem value_zeros_append (ds : Text) : value (List.replicate z '0' ++ ds) = value ds := by
  induction z with
  | zero => rfl
  | succ z ih => rw [List.replicate_succ, List.cons_append, value_zero_cons, ih]

theorem value_take_fixed (m : Nat) :
    value ((digits (n / 10 ^ k) ++ padded k n).take m) = n / 10 ^ (wholeDigits k n + k - m) := by
  rw [value_take ((allDigits_digits _).append (allDigits_padded k n)), value_fixed, List.length_append,
    length_padded]
  rfl

theorem readFloat_cutOff (pos : 0 < m) (short : m ≤ wholeDigits k n + k + 1) :
    readFloat (List.replicate z '0' ++ (fixed k n).take m)
      = some (Double.round (cutOff k m n), []) := by
  have zeros := allDigits_zeros z
  have whole := allDigits_digits (n / 10 ^ k)
  unfold cutOff
  by_cases inside : m ≤ wholeDigits k n
  · -- the point is cut off
    have cut : (fixed k n).take m = (digits (n / 10 ^ k)).take m := List.take_append_of_le_length inside
    have some : List.replicate z '0' ++ (digits (n / 10 ^ k)).take m ≠ [] := by
      intro none
      have := congrArg List.length (List.append_eq_nil_iff.mp none).2
      rw [List.length_take, List.length_nil] at this
      have := wholeDigits_pos k n
      unfold wholeDigits at this
      omega
    have same : (digits (n / 10 ^ k)).take m = (digits (n / 10 ^ k) ++ padded k n).take m :=
      (List.take_append_of_le_length inside).symm
    rw [if_pos inside, cut, readFloat_whole (zeros.append (whole.take m)) some, value_zeros_append, same,
      value_take_fixed]
  · have cut : (fixed k n).take m
        = digits (n / 10 ^ k) ++ '.' :: ((padded k n).take (m - 1 - wholeDigits k n) ++ []) := by
      have length : m - wholeDigits k n = m - 1 - wholeDigits k n + 1 := by omega
      rw [fixed, List.take_append, List.take_of_length_le (by unfold wholeDigits at inside; omega),
        List.append_nil]
      show _ ++ ('.' :: padded k n).take (m - wholeDigits k n) = _
      rw [length, List.take_succ_cons]
    have kept : ((padded k n).take (m - 1 - wholeDigits k n)).length = m - 1 - wholeDigits k n := by
      rw [List.length_take, length_padded]
      omega
    have some : List.replicate z '0' ++ digits (n / 10 ^ k) ≠ [] := fun none =>
      digits_ne_nil _ (List.append_eq_nil_iff.mp none).2
    have same : digits (n / 10 ^ k) ++ (padded k n).take (m - 1 - wholeDigits k n)
        = (digits (n / 10 ^ k) ++ padded k n).take (m - 1) := by
      have all : (digits (n / 10 ^ k)).take (m - 1) = digits (n / 10 ^ k) :=
        List.take_of_length_le (by unfold wholeDigits at inside; omega)
      rw [List.take_append, all]
      rfl
    rw [if_neg inside, cut, ← List.append_assoc,
      readFloat_point (zeros.append whole) some ((allDigits_padded k n).take _) stops_nil, kept,
      List.append_assoc, value_zeros_append, same, value_take_fixed]

theorem cast_div_eq_iff {n b : Nat} (pos : 0 < b) : ((n / b : Nat) : ℚ) = (n : ℚ) / b ↔ b ∣ n := by
  have nonzero : (b : ℚ) ≠ 0 := by positivity
  rw [eq_div_iff nonzero, Nat.dvd_iff_div_mul_eq]
  exact_mod_cast Iff.rfl

/-- Nothing is lost exactly if the whole part is there, and what is cut off are zeros. -/
theorem cutOff_eq_iff (pos : 0 < m) (short : m ≤ wholeDigits k n + k + 1) :
    cutOff k m n = (n : ℚ) / 10 ^ k ↔
      wholeDigits k n ≤ m ∧ 10 ^ (k - (m - 1 - wholeDigits k n)) ∣ n := by
  unfold cutOff
  rcases Nat.lt_trichotomy m (wholeDigits k n) with less | same | more
  · -- a digit of the whole part is missing, and the number is too small
    have large : 10 ^ (m + k) ≤ n := by
      by_contra small
      have := (wholeDigits_le_iff pos).mpr (not_le.mp small)
      omega
    have positive : (0 : ℚ) < n := by
      have : 0 < n := lt_of_lt_of_le (by positivity) large
      exact_mod_cast this
    have smaller : ((n / 10 ^ (wholeDigits k n + k - m) : Nat) : ℚ) < (n : ℚ) / 10 ^ k := by
      calc ((n / 10 ^ (wholeDigits k n + k - m) : Nat) : ℚ)
          ≤ (n : ℚ) / ((10 ^ (wholeDigits k n + k - m) : Nat) : ℚ) := Nat.cast_div_le
        _ = (n : ℚ) / 10 ^ (wholeDigits k n + k - m) := by push_cast; rfl
        _ < (n : ℚ) / 10 ^ k :=
          div_lt_div_of_pos_left positive (by positivity) (pow_lt_pow_right₀ (by norm_num) (by omega))
    rw [if_pos less.le]
    exact ⟨fun equal => absurd equal smaller.ne, fun both => absurd both.1 (not_le.mpr less)⟩
  · have exponent : wholeDigits k n + k - m = k := by omega
    have nothing : k - (m - 1 - wholeDigits k n) = k := by omega
    have iff := cast_div_eq_iff (n := n) (show 0 < 10 ^ k by positivity)
    rw [Nat.cast_pow, Nat.cast_ofNat] at iff
    rw [if_pos same.le, exponent, nothing, iff]
    exact ⟨fun divides => ⟨same.ge, divides⟩, And.right⟩
  · have exponent : wholeDigits k n + k - (m - 1) = k - (m - 1 - wholeDigits k n) := by omega
    have iff := cast_div_eq_iff (n := n)
      (show 0 < 10 ^ (k - (m - 1 - wholeDigits k n)) by positivity)
    have parts : (10 : ℚ) ^ k
        = 10 ^ (k - (m - 1 - wholeDigits k n)) * 10 ^ (m - 1 - wholeDigits k n) := by
      rw [← pow_add]
      congr 1
      omega
    rw [Nat.cast_pow, Nat.cast_ofNat] at iff
    rw [if_neg (not_le.mpr more), exponent, parts, ← div_div, div_left_inj' (by positivity), iff]
    exact ⟨fun divides => ⟨more.le, divides⟩, And.right⟩

theorem exists_cutOff_eq (short : m ≤ wholeDigits k n + k + 1) :
    ∃ i ≤ n, cutOff k m n = (i : ℚ) / 10 ^ k := by
  unfold cutOff
  split
  · next inside =>
    refine ⟨n / 10 ^ (wholeDigits k n + k - m) * 10 ^ k, ?_, ?_⟩
    · calc n / 10 ^ (wholeDigits k n + k - m) * 10 ^ k
          ≤ n / 10 ^ (wholeDigits k n + k - m) * 10 ^ (wholeDigits k n + k - m) :=
            Nat.mul_le_mul_left _ (Nat.pow_le_pow_right (by decide) (by omega))
        _ ≤ n := Nat.div_mul_le_self ..
    · push_cast
      field_simp
  · next outside =>
    refine ⟨_, Nat.div_mul_le_self n (10 ^ (wholeDigits k n + k - (m - 1))), ?_⟩
    have parts : (10 : ℚ) ^ k
        = 10 ^ (wholeDigits k n + k - (m - 1)) * 10 ^ (m - 1 - wholeDigits k n) := by
      rw [← pow_add]
      congr 1
      omega
    push_cast
    rw [parts, mul_comm, mul_div_mul_left _ _ (by positivity)]

theorem cutOff_le (inside : m ≤ wholeDigits k n) : cutOff k m n ≤ ((10 ^ m - 1 : Nat) : ℚ) := by
  have bound : n < 10 ^ (wholeDigits k n + k) := (wholeDigits_le_iff (wholeDigits_pos k n)).mp le_rfl
  have less : n / 10 ^ (wholeDigits k n + k - m) < 10 ^ m := by
    rw [Nat.div_lt_iff_lt_mul (by positivity), ← Nat.pow_add]
    refine lt_of_lt_of_eq bound ?_
    congr 1
    omega
  unfold cutOff
  rw [if_pos inside]
  exact_mod_cast Nat.le_sub_one_of_lt less

end Decimal
