import MemExchange.Lib.Decimal
import MemExchange.Mtc.Node

/-!
# Scores as text

`send_msg` writes a score with `%f` behind the letter of the datagram, and behind the sequence id in
an `H`. Then it sends `sizeof(msg)` bytes of it, the size of a pointer: an `H` has six characters of
the score and a `B` seven. So a score of a million or more loses digits of its whole part, and a
larger score may arrive as the smaller one. An `s` has the score with `%.5f`, and all bytes are sent.
-/
namespace MemExchange.Mtc

open Decimal

def scoreValue (score : Score) : ℚ := score.untopD ((2 ^ 53 - 1) * 2 ^ 971)

/-- `snprintf(score_str, 50, "%f", ..)` -/
def scoreStr (score : Score) : Text := (printFloat 6 (scoreValue score)).take 49

/-- `sizeof(msg)` for a `char *` -/
def sizeofMsg : Nat := 8

/-- What `send_msg` sends as an `H` -/
def sendH (mcId : Nat) (score : Score) : Text :=
  ('H' :: Char.ofNat (mcId + '0'.toNat) :: scoreStr score).take sizeofMsg

/-- What `send_msg` sends as a `B` -/
def sendB (score : Score) : Text := ('B' :: scoreStr score).take sizeofMsg

variable (buffer : Text) (n : Nat) (minScore : Score) (waitNs : Int64)

/-- `r_mc_id` in `recv_msg` -/
def requestId : Option Char := buffer[1]?

/-- `atof(buffer)` in `recv_msg` after `buffer[0]` and `buffer[1]` were set to zeros -/
def requestScore : ℚ := atof ('0' :: '0' :: buffer.drop 2)

/-- The same for a `B`, where `buffer[0]` was set -/
def finishScore : ℚ := atof ('0' :: buffer.drop 1)

/-- A score of `n` millionths, as a double -/
def millionths : ℚ := Double.round ((n : ℚ) / 10 ^ 6)

/-- A score arrives as it was sent, and so does the sequence id. -/
structure RoundTrips (n mcId : Nat) : Prop where
  id : requestId (sendH mcId (millionths n)) = some (Char.ofNat (mcId + '0'.toNat))
  request : requestScore (sendH mcId (millionths n)) = millionths n
  finish : finishScore (sendB (millionths n)) = millionths n

def SameOrder (n n' mcId : Nat) : Prop :=
  (requestScore (sendH mcId (millionths n)) < requestScore (sendH mcId (millionths n')) ↔
    millionths n < millionths n') ∧
  (finishScore (sendB (millionths n)) < finishScore (sendB (millionths n')) ↔
    millionths n < millionths n')

/-- The whole part has at most six digits, and what stands behind the first six characters are
zeros. -/
def Short : Prop := n < 10 ^ 12 ∧ 10 ^ (6 - (5 - wholeDigits 6 n)) ∣ n

instance : Decidable (Short n) := inferInstanceAs (Decidable (_ ∧ _))

/-! ### Replies -/

def msgMax : Nat := 64

/-- `wait_ns`, capped at 999 seconds -/
def cappedWait : Int :=
  if waitNs.toInt > 999999999999 then 999999999999 else waitNs.toInt

/-- `snprintf` with `",%.5f,%" PRId64 "\n"` -/
def replyText : Text :=
  ',' :: (printFloat 5 (scoreValue minScore) ++ ',' :: (printInt (cappedWait waitNs) ++ ['\n']))

/-- The `s` that `recv_msg` answers an `H` with, unless it does not fit into `msg` -/
def buildReply (mcId : Char) (minScore : Score) (waitNs : Int64) : Option Text :=
  if (replyText minScore waitNs).length ≥ msgMax - 2 then none
  else some ('s' :: mcId :: replyText minScore waitNs)

/-- The four fields of an `s`: `sscanf(buffer, "%c%c,%lf,%" SCNd64, ..)` -/
structure Reply where
  type : Char
  mcId : Char
  minScore : ℚ
  waitNs : Int
  deriving DecidableEq

/-- The result is `none` for a malformed message, with less than four fields. -/
def parseReply : Option Reply :=
  match cString buffer with
  | type :: mcId :: ',' :: t =>
    (readFloat t).bind fun (minScore, t) =>
      match t with
      | ',' :: t => (readInt t).map fun (waitNs, _) => ⟨type, mcId, minScore, waitNs⟩
      | _ => none
  | _ => none

def fiveDecimals (x : ℚ) : ℚ := Double.round ((Double.nearest (x * 10 ^ 5) : ℚ) / 10 ^ 5)

def Replies : Prop :=
  ∀ mcId ≠ '\x00', ∀ waitNs : Int64, ∃ text, buildReply mcId minScore waitNs = some text ∧
    text.length ≤ msgMax ∧
    parseReply text = some ⟨'s', mcId, fiveDecimals (scoreValue minScore), cappedWait waitNs⟩

/-- What a score that is reported by a tenant may be, other than `__DBL_MAX__` -/
def InRange (score : Score) : Prop := ((0 : ℚ) : Score) ≤ score ∧ score ≤ noMinScore

instance : DecidablePred InRange := fun _ => inferInstanceAs (Decidable (_ ∧ _))

theorem cappedWait_bounds : (cappedWait waitNs).natAbs < 10 ^ 19 := by
  have low := Int64.le_toInt waitNs
  unfold cappedWait
  split <;> omega

variable {score : Score}

theorem InRange.exists (range : InRange score) : ∃ x : ℚ, score = x ∧ 0 ≤ x ∧ x ≤ 9999999999 := by
  obtain ⟨low, high⟩ := range
  obtain ⟨x, rfl⟩ := WithTop.ne_top_iff_exists.mp (ne_top_of_le_ne_top WithTop.coe_ne_top high)
  exact ⟨x, rfl, WithTop.coe_le_coe.mp low, WithTop.coe_le_coe.mp high⟩

theorem InRange.printed {x : ℚ} (nonneg : 0 ≤ x) (high : x ≤ 9999999999) :
    ∃ n : Nat, Double.nearest (x * 10 ^ 5) = n ∧ printFloat 5 x = fixed 5 n ∧ wholeDigits 5 n ≤ 10 := by
  obtain ⟨n, rounded⟩ : ∃ n : Nat, Double.nearest (x * 10 ^ 5) = n :=
    ⟨_, (Int.toNat_of_nonneg (Double.nearest_nonneg (by positivity))).symm⟩
  refine ⟨n, rounded, ?_, (wholeDigits_le_iff (by decide)).mpr ?_⟩
  · rw [printFloat, if_neg (not_lt.mpr nonneg), rounded, Int.toNat_natCast]
  · have : Double.nearest (x * 10 ^ 5) ≤ 999999999900000 := by
      refine Double.nearest_le ?_
      push_cast
      linarith
    omega

theorem replies_of_inRange (range : InRange score) : Replies score := by
  obtain ⟨x, rfl, nonneg, high⟩ := range.exists
  obtain ⟨n, rounded, printed, small⟩ := InRange.printed nonneg high
  intro mcId named waitNs
  have text : replyText (x : Score) waitNs
      = ',' :: (fixed 5 n ++ ',' :: (printInt (cappedWait waitNs) ++ ['\n'])) := by
    show ',' :: (printFloat 5 x ++ _) = _
    rw [printed]
  have length : (replyText (x : Score) waitNs).length ≤ 39 := by
    have wait := length_printInt_le (by decide) (cappedWait_bounds waitNs)
    rw [text]
    simp only [List.length_cons, List.length_append, List.length_nil, length_fixed]
    omega
  have printable : Printable ('s' :: mcId :: replyText (x : Score) waitNs) := by
    rw [text]
    refine .cons (by decide) (.cons named (.cons (by decide) ((printable_fixed 5 n).append ?_)))
    exact .cons (by decide) ((printable_printInt _).append (.cons (by decide) printable_nil))
  refine ⟨'s' :: mcId :: replyText (x : Score) waitNs, ?_, ?_, ?_⟩
  · rw [buildReply, if_neg (by unfold msgMax; omega)]
  · rw [List.length_cons, List.length_cons]
    unfold msgMax
    omega
  · rw [parseReply, printable.cString_eq, text]
    show (readFloat (fixed 5 n ++ ',' :: (printInt (cappedWait waitNs) ++ ['\n']))).bind _ = _
    rw [readFloat_fixed 5 n (stops_cons _ (by decide)), Option.bind_some]
    show (readInt (printInt (cappedWait waitNs) ++ ['\n'])).map _ = _
    rw [readInt_printInt _ (stops_cons _ (by decide)), Option.map_some]
    show some (Reply.mk _ _ _ _) = some (Reply.mk _ _ (fiveDecimals x) _)
    rw [fiveDecimals, rounded]
    rfl

/-! ### What is left of a score -/

section Millionths

theorem millionths_nonneg (n : Nat) : 0 ≤ millionths n := Double.round_nonneg (by positivity)

variable {n} {m : Nat} (z : Nat)

theorem abs_div_million_lt (small : n < 10 ^ 13) : |(n : ℚ) / 10 ^ 6| < 2 ^ ((23 : ℤ) + 1) := by
  have : (n : ℚ) < 10 ^ 13 := by exact_mod_cast small
  rw [abs_of_nonneg (by positivity), div_lt_iff₀ (by positivity)]
  refine this.trans ?_
  norm_num

/-- With seven digits before the point a double is printed as the decimal it was made from. -/
theorem printFloat_millionths (small : n < 10 ^ 13) : printFloat 6 (millionths n) = fixed 6 n := by
  have bound := abs_div_million_lt small
  have error : |millionths n - (n : ℚ) / 10 ^ 6| ≤ 2 ^ ((23 : ℤ) - 52) / 2 :=
    (Double.abs_round_sub_le _).trans
      (div_le_div_of_nonneg_right (Double.quantum_le (by norm_num) bound) (by norm_num))
  have scaled : millionths n * 10 ^ 6 - (n : ℤ) = (millionths n - (n : ℚ) / 10 ^ 6) * 10 ^ 6 := by
    push_cast
    field_simp
  have close : |millionths n * 10 ^ 6 - (n : ℤ)| < 1 / 2 := by
    rw [scaled, abs_mul, abs_of_pos (show (0 : ℚ) < 10 ^ 6 by norm_num)]
    calc |millionths n - (n : ℚ) / 10 ^ 6| * 10 ^ 6 ≤ 2 ^ ((23 : ℤ) - 52) / 2 * 10 ^ 6 :=
          mul_le_mul_of_nonneg_right error (by norm_num)
      _ < 1 / 2 := by norm_num
  rw [printFloat, if_neg (not_lt.mpr (millionths_nonneg n)), Double.nearest_eq close,
    Int.toNat_natCast]

theorem atof_cut_eq_iff_of_small (small : n < 10 ^ 13) (pos : 0 < m) (short : m ≤ 7) :
    atof (List.replicate z '0' ++ (printFloat 6 (millionths n)).take m) = millionths n ↔
      wholeDigits 6 n ≤ m ∧ 10 ^ (6 - (m - 1 - wholeDigits 6 n)) ∣ n := by
  have room : m ≤ wholeDigits 6 n + 6 + 1 := by omega
  rw [← cutOff_eq_iff 6 n pos room, printFloat_millionths small, atof,
    readFloat_cutOff 6 n z pos room]
  show Double.round (cutOff 6 m n) = Double.round ((n : ℚ) / 10 ^ 6) ↔ _
  refine ⟨fun same => ?_, fun same => by rw [same]⟩
  obtain ⟨i, le, cut⟩ := exists_cutOff_eq 6 n room
  by_contra other
  have less : i < n := by
    refine lt_of_le_of_ne le fun equal => other ?_
    rw [cut, equal]
  -- a smaller decimal is a smaller double
  have gap : (2 : ℚ) ^ ((23 : ℤ) - 52) < (n : ℚ) / 10 ^ 6 - (i : ℚ) / 10 ^ 6 := by
    have : (i : ℚ) + 1 ≤ n := by exact_mod_cast less
    rw [← sub_div, lt_div_iff₀ (by positivity)]
    refine lt_of_lt_of_le ?_ (show (1 : ℚ) ≤ n - i by linarith)
    norm_num
  have := Double.round_lt_round (by norm_num) (abs_div_million_lt (lt_of_le_of_lt le small))
    (abs_div_million_lt small) gap
  rw [cut] at same
  exact absurd same this.ne

theorem le_millionths (large : 10 ^ 13 ≤ n) : 10000000 - 1 / 10000000 ≤ millionths n := by
  have whole : (10 : ℚ) ^ 7 ≤ (n : ℚ) / 10 ^ 6 := by
    have : (10 : ℚ) ^ 13 ≤ n := by exact_mod_cast large
    rw [le_div_iff₀ (by positivity)]
    refine le_trans ?_ this
    norm_num
  have nonneg : |(n : ℚ) / 10 ^ 6| = (n : ℚ) / 10 ^ 6 := abs_of_nonneg (by positivity)
  have relative := Double.quantum_le_mul (x := (n : ℚ) / 10 ^ 6) (by rw [nonneg]; linarith)
  have error := abs_le.mp (Double.abs_round_sub_le ((n : ℚ) / 10 ^ 6))
  rw [nonneg] at relative
  have half : (n : ℚ) / 10 ^ 6 * 2 ^ (-52 : ℤ) = 2 * ((n : ℚ) / 10 ^ 6 * 2 ^ (-53 : ℤ)) := by
    norm_num
    ring
  unfold millionths
  calc (10000000 : ℚ) - 1 / 10000000 ≤ 10 ^ 7 * (1 - 2 ^ (-53 : ℤ)) := by norm_num
    _ ≤ (n : ℚ) / 10 ^ 6 * (1 - 2 ^ (-53 : ℤ)) := mul_le_mul_of_nonneg_right whole (by norm_num)
    _ = (n : ℚ) / 10 ^ 6 - (n : ℚ) / 10 ^ 6 * 2 ^ (-53 : ℤ) := by ring
    _ ≤ Double.round ((n : ℚ) / 10 ^ 6) := by linarith [error.1]

theorem atof_cut_lt_of_large (large : 10 ^ 13 ≤ n) (pos : 0 < m) (short : m ≤ 7) :
    atof (List.replicate z '0' ++ (printFloat 6 (millionths n)).take m) < millionths n := by
  have least := le_millionths large
  -- the text has more than seven digits before the point
  obtain ⟨i, printed, digits⟩ : ∃ i, printFloat 6 (millionths n) = fixed 6 i ∧ 10 ^ 13 ≤ i := by
    refine ⟨_, by rw [printFloat, if_neg (not_lt.mpr (millionths_nonneg n))], ?_⟩
    have near := abs_le.mp (Double.abs_nearest_sub_le (millionths n * 10 ^ 6))
    have above : ((10 ^ 13 - 1 : ℤ) : ℚ) < Double.nearest (millionths n * 10 ^ 6) := by
      have scaled : (10000000000000 : ℚ) - 1 / 10 ≤ millionths n * 10 ^ 6 := by
        refine le_trans ?_ (mul_le_mul_of_nonneg_right least (by norm_num))
        norm_num
      norm_num
      linarith only [near.1, scaled]
    have := Int.cast_lt.mp above
    omega
  have inside : m ≤ wholeDigits 6 i := by
    by_contra few
    have := (wholeDigits_le_iff (k := 6) (n := i) (m := 7) (by decide)).mp (by omega)
    omega
  have room : m ≤ wholeDigits 6 i + 6 + 1 := by omega
  rw [printed, atof, readFloat_cutOff 6 i z pos room]
  show Double.round (cutOff 6 m i) < millionths n
  have most : cutOff 6 m i ≤ 9999999 := by
    refine (cutOff_le 6 i inside).trans ?_
    have : 10 ^ m ≤ 10 ^ 7 := Nat.pow_le_pow_right (by decide) short
    have : ((10 ^ m - 1 : Nat) : ℚ) ≤ ((10 ^ 7 - 1 : Nat) : ℚ) := by
      exact_mod_cast Nat.sub_le_sub_right this 1
    refine this.trans ?_
    norm_num
  have nonneg : 0 ≤ cutOff 6 m i := by
    obtain ⟨j, -, cut⟩ := exists_cutOff_eq 6 i room
    rw [cut]
    positivity
  have error := abs_le.mp (Double.abs_round_sub_le (cutOff 6 m i))
  have quantum : Double.quantum (cutOff 6 m i) ≤ 2 ^ ((23 : ℤ) - 52) := by
    refine Double.quantum_le (by norm_num) ?_
    rw [abs_of_nonneg nonneg]
    refine most.trans_lt ?_
    norm_num
  have small : Double.quantum (cutOff 6 m i) < 1 / 4 := quantum.trans_lt (by norm_num)
  linarith only [error.2, small, most, least]

/-- The first `m` characters of a score are the score exactly if the whole part is there, and what is
missing are zeros. -/
theorem atof_cut_eq_iff (n z : Nat) (pos : 0 < m) (short : m ≤ 7) :
    atof (List.replicate z '0' ++ (printFloat 6 (millionths n)).take m) = millionths n ↔
      wholeDigits 6 n ≤ m ∧ 10 ^ (6 - (m - 1 - wholeDigits 6 n)) ∣ n := by
  by_cases small : n < 10 ^ 13
  · exact atof_cut_eq_iff_of_small z small pos short
  · have large : 10 ^ 13 ≤ n := not_lt.mp small
    refine ⟨fun same => absurd same (atof_cut_lt_of_large z large pos short).ne, fun both => ?_⟩
    have := (wholeDigits_le_iff (k := 6) (n := n) (m := 7) (by decide)).mp (by omega)
    omega

end Millionths

/-! ### The datagrams -/

section Datagrams

variable (mcId : Nat)

theorem sendH_millionths : sendH mcId (millionths n) =
    'H' :: Char.ofNat (mcId + '0'.toNat) :: (printFloat 6 (millionths n)).take 6 := by
  show 'H' :: _ :: ((printFloat 6 (millionths n)).take 49).take 6 = _
  rw [List.take_take]
  rfl

theorem sendB_millionths : sendB (millionths n) = 'B' :: (printFloat 6 (millionths n)).take 7 := by
  show 'B' :: ((printFloat 6 (millionths n)).take 49).take 7 = _
  rw [List.take_take]
  rfl

theorem requestScore_eq_iff :
    requestScore (sendH mcId (millionths n)) = millionths n ↔ Short n := by
  have cut := atof_cut_eq_iff n 2 (m := 6) (by decide) (by decide)
  rw [sendH_millionths]
  refine cut.trans (and_congr_left' ?_)
  exact wholeDigits_le_iff (by decide)

theorem finishScore_eq_of_short (short : Short n) :
    finishScore (sendB (millionths n)) = millionths n := by
  have cut := atof_cut_eq_iff n 1 (m := 7) (by decide) (by decide)
  rw [sendB_millionths]
  have whole := (wholeDigits_le_iff (k := 6) (m := 6) (by decide)).mpr short.1
  refine cut.mpr ⟨by omega, ?_⟩
  exact (Nat.pow_dvd_pow 10 (by omega)).trans short.2

theorem roundTrips_iff : RoundTrips n mcId ↔ Short n := by
  constructor
  · exact fun trip => (requestScore_eq_iff n mcId).mp trip.request
  · intro short
    refine ⟨?_, (requestScore_eq_iff n mcId).mpr short, finishScore_eq_of_short n short⟩
    rw [sendH_millionths]
    rfl

end Datagrams

/-- Two scores and the sequence ids arrive as they were sent, and compare as they did, exactly if both
scores are short. -/
theorem broadcasts_round_trip_iff (n n' mcId : Nat) :
    (RoundTrips n mcId ∧ RoundTrips n' mcId ∧ SameOrder n n' mcId) ↔ Short n ∧ Short n' := by
  constructor
  · rintro ⟨first, second, -⟩
    exact ⟨(roundTrips_iff n mcId).mp first, (roundTrips_iff n' mcId).mp second⟩
  · rintro ⟨short, short'⟩
    have first := (roundTrips_iff n mcId).mpr short
    have second := (roundTrips_iff n' mcId).mpr short'
    refine ⟨first, second, ?_, ?_⟩
    · rw [first.request, second.request]
    · rw [first.finish, second.finish]

/-- 1000000.5 is sent as 100000, and 999999 as it is: the larger score arrives as the smaller one. -/
theorem large_score_arrives_small : sendH 3 (millionths 1000000500000) = "H3100000".toList ∧
      requestScore (sendH 3 (millionths 1000000500000)) = 100000 ∧
      requestScore (sendH 3 (millionths 999999000000)) = 999999 ∧
      ¬ RoundTrips 1000000500000 3 ∧ ¬ SameOrder 999999000000 1000000500000 3 := by
  have sent : requestScore (sendH 3 (millionths 1000000500000)) = 100000 := by decide +kernel
  have other : requestScore (sendH 3 (millionths 999999000000)) = 999999 := by decide +kernel
  refine ⟨by decide +kernel, sent, other, fun trip => ?_, fun order => ?_⟩
  · exact absurd (sent.symm.trans trip.request) (by decide +kernel)
  · have less := order.1.mpr (by decide +kernel)
    rw [sent, other] at less
    exact absurd less (by decide)

end MemExchange.Mtc
