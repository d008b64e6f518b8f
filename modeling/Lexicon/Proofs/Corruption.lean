/-
Module: Lexicon.Proofs.Corruption
Layer: Proofs
Purpose: What one changed byte, and two exchanged bytes, do to the checksum of a sequence of bytes, and
  that images damaged in one of these ways are refused.
Imports: Lexicon.Proofs.Image, Mathlib.Data.Int.ModEq, Mathlib.Data.Nat.Prime.Int,
  Mathlib.Tactic.NormNum.Prime, Mathlib.Tactic.Ring
Trusted boundary: none
Main exports: Checksum.total, Checksum.moment, Checksum.ofBytes_ne_of_changed,
  Checksum.ofBytes_ne_of_exchanged, Image.RefusedAt, Image.decode_corrupted
-/
import Lexicon.Proofs.Image
import Mathlib.Data.Int.ModEq
import Mathlib.Data.Nat.Prime.Int
import Mathlib.Tactic.NormNum.Prime
import Mathlib.Tactic.Ring

namespace Lexicon

/-!
A checksum keeps two sums modulo a prime: that of the bytes, and that of the bytes each counted as often
as it is followed by a byte, itself included.  One changed byte shows in the first sum.  Two exchanged
bytes do not show there, but in the second one, where they differ by as many times their difference as
they are apart.  Neither can be a multiple of the prime, as long as they are not further apart than
that.
-/

namespace Checksum

/-! ### The two sums -/

/-- The sum of the bytes. -/
def total : List UInt8 → Nat
  | [] => 0
  | byte :: bytes => byte.toNat + total bytes

/-- The sum of the bytes, each counted once for itself and once for every byte behind it. -/
def moment : List UInt8 → Nat
  | [] => 0
  | byte :: bytes => (bytes.length + 1) * byte.toNat + moment bytes

theorem total_append (bytes more : List UInt8) :
    total (bytes ++ more) = total bytes + total more := by
  induction bytes with
  | nil => simp [total]
  | cons byte bytes ih => rw [List.cons_append, total, total, ih, Nat.add_assoc]

/-- Bytes are counted once more for each byte that is put behind them. -/
theorem moment_append (bytes more : List UInt8) :
    moment (bytes ++ more) = moment bytes + more.length * total bytes + moment more := by
  induction bytes with
  | nil => simp [moment, total]
  | cons byte bytes ih =>
      rw [List.cons_append, moment, moment, total, ih, List.length_append]
      ring

/-- The running sums are these two, modulo the prime. -/
theorem foldl_add (bytes : List UInt8) (sums : Checksum) :
    (bytes.foldl add sums).low ≡ sums.low + total bytes [MOD modulus] ∧
      (bytes.foldl add sums).high ≡ sums.high + bytes.length * sums.low + moment bytes
        [MOD modulus] := by
  induction bytes generalizing sums with
  | nil => exact ⟨by simp [total, Nat.ModEq.refl], by simp [moment, Nat.ModEq.refl]⟩
  | cons byte bytes ih =>
      obtain ⟨low, high⟩ := ih (sums.add byte)
      have lowHere : (sums.add byte).low ≡ sums.low + byte.toNat [MOD modulus] := Nat.mod_modEq _ _
      have highHere : (sums.add byte).high ≡ sums.high + (sums.low + byte.toNat) [MOD modulus] :=
        (Nat.mod_modEq _ _).trans (lowHere.add_left _)
      rw [List.foldl_cons]
      constructor
      · refine low.trans ((lowHere.add_right _).trans ?_)
        rw [total, Nat.add_assoc]
      · refine high.trans (((highHere.add (lowHere.mul_left _)).add_right _).trans ?_)
        rw [moment, List.length_cons]
        apply congrArg (· % modulus)
        ring

theorem foldl_add_lt (bytes : List UInt8) (sums : Checksum) (low : sums.low < modulus) :
    (bytes.foldl add sums).low < modulus := by
  induction bytes generalizing sums with
  | nil => exact low
  | cons byte bytes ih => exact ih _ (Nat.mod_lt _ (by decide))

/-- Sequences of one length with the same checksum agree in both sums, modulo the prime. -/
theorem modEq_of_ofBytes_eq {bytes others : List UInt8} (length : bytes.length = others.length)
    (same : ofBytes bytes = ofBytes others) :
    total bytes ≡ total others [MOD modulus] ∧ moment bytes ≡ moment others [MOD modulus] := by
  have small := foldl_add_lt bytes start (by decide)
  have smallOther := foldl_add_lt others start (by decide)
  obtain ⟨low, high⟩ := foldl_add bytes start
  obtain ⟨lowOther, highOther⟩ := foldl_add others start
  have limit : modulus < 0x10000 := by decide
  simp only [ofBytes, value] at same
  have lows : (bytes.foldl add start).low = (others.foldl add start).low := by omega
  have highs : (bytes.foldl add start).high = (others.foldl add start).high := by omega
  rw [lows] at low
  rw [highs, length] at high
  exact ⟨(low.symm.trans lowOther).add_left_cancel' _,
    (high.symm.trans highOther).add_left_cancel' _⟩

/-! ### Damage that shows -/

theorem prime_modulus : Nat.Prime modulus := by
  norm_num [modulus]

/-- Two bytes that agree modulo the prime are the same. -/
theorem eq_of_dvd_sub {byte other : UInt8}
    (divides : (modulus : Int) ∣ (byte.toNat : Int) - other.toNat) : byte = other := by
  have small := byte.toNat_lt
  have smallOther := other.toNat_lt
  have zero : (byte.toNat : Int) - other.toNat = 0 := by
    apply Int.eq_zero_of_abs_lt_dvd divides
    have limit : (modulus : Int) = 65521 := rfl
    rw [abs_lt]
    omega
  apply UInt8.toNat_inj.mp
  omega

/-- One changed byte changes the checksum. -/
theorem ofBytes_ne_of_changed {byte other : UInt8} (differ : byte ≠ other)
    (before after : List UInt8) :
    ofBytes (before ++ byte :: after) ≠ ofBytes (before ++ other :: after) := by
  intro same
  obtain ⟨totals, _⟩ := modEq_of_ofBytes_eq (by simp) same
  simp only [total_append, total] at totals
  have bytes := (totals.add_left_cancel' _).add_right_cancel' _
  exact differ (eq_of_dvd_sub (Int.natCast_modEq_iff.mpr bytes).symm.dvd)

/-- Two different bytes that are exchanged change the checksum, if they are not further apart than the
prime. -/
theorem ofBytes_ne_of_exchanged {byte other : UInt8} (differ : byte ≠ other)
    (before : List UInt8) {between : List UInt8} (near : between.length + 1 < modulus)
    (after : List UInt8) :
    ofBytes (before ++ byte :: (between ++ other :: after)) ≠
      ofBytes (before ++ other :: (between ++ byte :: after)) := by
  intro same
  obtain ⟨_, moments⟩ := modEq_of_ofBytes_eq (by simp) same
  have divides := (Int.natCast_modEq_iff.mpr moments).symm.dvd
  simp only [moment_append, moment, List.length_append, List.length_cons] at divides
  have apart : (modulus : Int) ∣
      ((between.length + 1 : Nat) : Int) * ((byte.toNat : Int) - other.toNat) := by
    refine divides.trans (dvd_of_eq ?_)
    push_cast
    ring
  rcases (Nat.prime_iff_prime_int.mp prime_modulus).dvd_or_dvd apart with far | bytes
  · have least := Nat.le_of_dvd (Nat.succ_pos _) (Int.natCast_dvd_natCast.mp far)
    omega
  · exact differ (eq_of_dvd_sub bytes)

end Checksum

namespace Image

/-! ### Images and their damage -/

/-- An image is refused before its body is looked at: for its mark, if it is damaged there, and for its
checksum otherwise. -/
def RefusedAt (position : Nat) (outcome : Except Error (Header × Content)) : Prop :=
  if position < mark.length then outcome = .error (.format .notAnImage)
  else ∃ expected actual, expected ≠ actual ∧
    outcome = .error (.checksumMismatch expected actual)

/-- Two bytes in each other's place. -/
def exchange (bytes : List UInt8) (first second : Nat) : List UInt8 :=
  (bytes.set first (bytes.getD second 0)).set second (bytes.getD first 0)

theorem exchange_append (before between after : List UInt8) (byte other : UInt8) :
    exchange (before ++ byte :: (between ++ other :: after)) before.length
        (before.length + (between.length + 1)) =
      before ++ other :: (between ++ byte :: after) := by
  simp [exchange, List.getD_eq_getElem?_getD]

/-- A list is cut at two of its places. -/
theorem exists_cut {bytes : List UInt8} {first second : Nat} (ordered : first < second)
    (inside : second < bytes.length) :
    ∃ before between after, bytes = before ++ bytes[first] :: (between ++ bytes[second] :: after) ∧
      first = before.length ∧ second = before.length + (between.length + 1) := by
  have bound : second - (first + 1) < (bytes.drop (first + 1)).length := by
    rw [List.length_drop]
    omega
  have there : (bytes.drop (first + 1))[second - (first + 1)] = bytes[second] := by
    rw [List.getElem_drop]
    congr 1
    omega
  refine ⟨bytes.take first, (bytes.drop (first + 1)).take (second - (first + 1)),
    (bytes.drop (first + 1)).drop (second - (first + 1) + 1), ?_, ?_, ?_⟩
  · rw [← there, ← List.drop_eq_getElem_cons bound, List.take_append_drop,
      ← List.drop_eq_getElem_cons, List.take_append_drop]
  · rw [List.length_take]
    omega
  · rw [List.length_take, List.length_take, List.length_drop]
    omega

/-- Lists that part at some place begin alike up to it. -/
theorem take_eq_take_iff {before rest others : List UInt8} {byte other : UInt8}
    (differ : byte ≠ other) (length : Nat) :
    (before ++ byte :: rest).take length = (before ++ other :: others).take length ↔
      length ≤ before.length := by
  constructor
  · intro same
    by_contra beyond
    have here := congrArg (·[before.length]?) same
    simp only [List.getElem?_take, if_pos (Nat.lt_of_not_le beyond),
      List.getElem?_append_right (Nat.le_refl _), Nat.sub_self, List.getElem?_cons_zero] at here
    exact differ (Option.some.inj here)
  · intro within
    rw [List.take_append_of_le_length within, List.take_append_of_le_length within]

/-- The parts of an image, as the checks see them. -/
theorem exists_body {header : Header} {content : Content} {image : List UInt8}
    (written : encode header content = .ok image) :
    ∃ body, image = withChecksum body ∧ mark.length + 4 ≤ body.length ∧
      body.take mark.length = mark := by
  obtain ⟨head, body, _, _, rfl, long⟩ := exists_parts written
  refine ⟨mark ++ (head ++ body), rfl, ?_, List.take_left⟩
  rw [List.length_append]
  omega

section Damage

variable {before rest others : List UInt8} {byte other : UInt8}

/-- Bytes that part from those of an image, and whose checksum is not the one behind them, are
refused. -/
theorem refusedAt_of_ne (marked : (before ++ byte :: rest).take mark.length = mark)
    (differ : byte ≠ other) (long : mark.length + 4 ≤ (before ++ other :: others).length)
    {closing : List UInt8} (length : closing.length = checksumSize)
    (wrong : LittleEndian.decode closing ≠ Checksum.ofBytes (before ++ other :: others)) :
    RefusedAt before.length (decode (before ++ other :: others ++ closing).toByteArray) := by
  have spoiled : (before ++ other :: others).take mark.length =
      (before ++ byte :: rest).take mark.length ↔ mark.length ≤ before.length :=
    take_eq_take_iff differ.symm mark.length
  rw [marked] at spoiled
  rw [decode_append _ length]
  by_cases early : before.length < mark.length
  · have unmarked : (before ++ other :: others).take mark.length ≠ mark :=
      fun same => absurd (spoiled.mp same) (Nat.not_le.mpr early)
    rw [RefusedAt, if_pos early, if_pos (Or.inr unmarked)]
  · have same := spoiled.mpr (Nat.le_of_not_lt early)
    rw [RefusedAt, if_neg early, if_neg (not_or.mpr ⟨Nat.not_lt.mpr long, not_not.mpr same⟩),
      if_pos wrong]
    exact ⟨_, _, wrong, rfl⟩

/-- An image is refused in which one byte of the body was changed. -/
theorem refusedAt_changed (marked : (before ++ byte :: rest).take mark.length = mark)
    (long : mark.length + 4 ≤ (before ++ byte :: rest).length) (differ : byte ≠ other) :
    RefusedAt before.length (decode (before ++ other :: rest ++
      LittleEndian.encode checksumSize (Checksum.ofBytes (before ++ byte :: rest))).toByteArray) := by
  refine refusedAt_of_ne marked differ (by simpa using long) (LittleEndian.length_encode _ _) ?_
  rw [LittleEndian.decode_encode_of_lt (ofBytes_lt _)]
  exact Checksum.ofBytes_ne_of_changed differ before rest

/-- An image is refused in which two bytes of the body were exchanged. -/
theorem refusedAt_exchanged {between after : List UInt8}
    (marked : (before ++ byte :: (between ++ other :: after)).take mark.length = mark)
    (long : mark.length + 4 ≤ (before ++ byte :: (between ++ other :: after)).length)
    (differ : byte ≠ other) (near : between.length + 1 < Checksum.modulus) :
    RefusedAt before.length (decode (before ++ other :: (between ++ byte :: after) ++
      LittleEndian.encode checksumSize
        (Checksum.ofBytes (before ++ byte :: (between ++ other :: after)))).toByteArray) := by
  refine refusedAt_of_ne marked differ (by simpa using long) (LittleEndian.length_encode _ _) ?_
  rw [LittleEndian.decode_encode_of_lt (ofBytes_lt _)]
  exact Checksum.ofBytes_ne_of_exchanged differ before near after

end Damage

/-- An image is refused in which one byte of the checksum was changed. -/
theorem refusedAt_closing {body : List UInt8} (long : mark.length + 4 ≤ body.length)
    (marked : body.take mark.length = mark) {position : Nat} {byte : UInt8}
    (inside : position < (LittleEndian.encode checksumSize (Checksum.ofBytes body)).length)
    (differ : byte ≠ (LittleEndian.encode checksumSize (Checksum.ofBytes body))[position]) :
    RefusedAt (body.length + position) (decode (body ++
      (LittleEndian.encode checksumSize (Checksum.ofBytes body)).set position byte).toByteArray) := by
  have length := LittleEndian.length_encode checksumSize (Checksum.ofBytes body)
  have wrong : LittleEndian.decode
      ((LittleEndian.encode checksumSize (Checksum.ofBytes body)).set position byte) ≠
        Checksum.ofBytes body := by
    intro same
    -- a number has one spelling
    have spelled := LittleEndian.encode_decode
      ((LittleEndian.encode checksumSize (Checksum.ofBytes body)).set position byte)
    rw [List.length_set, length, same] at spelled
    have here := congrArg (·[position]?) spelled
    simp only [List.getElem?_set_self inside, List.getElem?_eq_getElem inside] at here
    exact differ (Option.some.inj here).symm
  rw [decode_append body (by rwa [List.length_set]), RefusedAt, if_neg (by omega),
    if_neg (not_or.mpr ⟨Nat.not_lt.mpr long, not_not.mpr marked⟩), if_pos wrong]
  exact ⟨_, _, wrong, rfl⟩

/-- No image that was written is accepted any more once one of its bytes has another value, or once two
different bytes in front of the checksum, less than 65521 positions apart, stand in each other's place.
It is refused for its mark when that is damaged, and for its checksum in all other cases. -/
theorem decode_corrupted {header : Header} {content : Content} {image : List UInt8}
    (written : encode header content = .ok image) :
    (∀ (position : Nat) (inside : position < image.length) (byte : UInt8), byte ≠ image[position] →
      RefusedAt position (decode (image.set position byte).toByteArray)) ∧
    ∀ (first second : Nat) (ordered : first < second)
      (inside : second < image.length - checksumSize),
      image[first] ≠ image[second] → second - first < 65521 →
        RefusedAt first (decode (exchange image first second).toByteArray) := by
  obtain ⟨body, rfl, long, marked⟩ := exists_body written
  have length : (withChecksum body).length = body.length + checksumSize := by
    rw [withChecksum, List.length_append, LittleEndian.length_encode]
  constructor
  · intro position inside byte differ
    simp only [withChecksum] at differ ⊢
    rcases Nat.lt_or_ge position body.length with early | late
    · rw [List.getElem_append_left early] at differ
      obtain ⟨before, after, cut, place, changed⟩ : ∃ before after,
          body = before ++ body[position] :: after ∧ before.length = position ∧
            body.set position byte = before ++ byte :: after := List.exists_of_set early
      rw [List.set_append_left _ _ early, changed]
      generalize body[position] = old at cut differ
      subst cut place
      exact refusedAt_changed marked long differ.symm
    · rw [List.getElem_append_right late] at differ
      rw [List.set_append_right _ _ late]
      have place : position = body.length + (position - body.length) := by omega
      conv => lhs; rw [place]
      exact refusedAt_closing long marked _ differ
  · intro first second ordered inside differ near
    have within : second < body.length := by omega
    simp only [withChecksum] at differ ⊢
    rw [List.getElem_append_left within,
      List.getElem_append_left (Nat.lt_trans ordered within)] at differ
    obtain ⟨before, between, after, cut, rfl, rfl⟩ := exists_cut ordered within
    generalize body[before.length] = byte at cut differ
    generalize body[before.length + (between.length + 1)] = other at cut differ
    subst cut
    have exchanged := exchange_append before between (after ++ LittleEndian.encode checksumSize
      (Checksum.ofBytes (before ++ byte :: (between ++ other :: after)))) byte other
    rw [Nat.add_sub_cancel_left] at near
    have refused := refusedAt_exchanged marked long differ near
    simp only [List.append_assoc, List.cons_append] at refused ⊢
    rw [exchanged]
    exact refused

/-- The image of a dictionary with the locale `fr`, without attributes, and with a few bytes in both
of its buffers. -/
def imprinted : List UInt8 :=
  [84, 68, 73, 67, 4, 0, 0, 0, 2, 0, 102, 114, 0, 0, 1, 0, 0, 0, 0, 0, 0, 0, 1, 0, 0, 0, 0, 0, 0, 0,
    0, 0, 0, 0, 0, 0, 0, 0, 0, 0, 0, 0, 0, 0, 0, 0, 0, 0, 0, 0, 1, 0, 0, 0, 0, 0, 0, 0, 0, 0, 0, 0,
    0, 0, 0, 0, 0, 0, 0, 0, 0, 0, 0, 0, 0, 0, 0, 0, 4, 0, 0, 0, 1, 97, 0, 0, 3, 0, 0, 0, 0, 7, 0,
    118, 2, 107, 181]

/-- That image is accepted.  It is refused when its mark, its locale or its checksum is damaged, and when
the two letters of the locale are exchanged. -/
theorem decode_corrupted_imprinted :
    ∃ header content, encode header content = .ok imprinted ∧
      (decode imprinted.toByteArray).isOk = true ∧
      decode (imprinted.set 2 0).toByteArray = .error (.format .notAnImage) ∧
      RefusedAt 10 (decode (imprinted.set 10 103).toByteArray) ∧
      RefusedAt 96 (decode (imprinted.set 96 180).toByteArray) ∧
      RefusedAt 10 (decode (exchange imprinted 10 11).toByteArray) := by
  have written : encode ⟨.plain, "fr", default⟩
      { terminals := ⟨#[1, 97, 0, 0]⟩, records := ⟨#[0, 7, 0]⟩, unigramCount := 1 } =
        .ok imprinted := by decide +kernel
  obtain ⟨changed, exchanged⟩ := decode_corrupted written
  exact ⟨_, _, written, by decide +kernel, changed 2 (by decide) 0 (by decide),
    changed 10 (by decide) 103 (by decide), changed 96 (by decide) 180 (by decide),
    exchanged 10 11 (by decide) (by decide) (by decide) (by decide)⟩

end Image

end Lexicon
