-- Cursors. A cursor moves and looks around as if places were integers, until the sum of its
-- position and a displacement is no signed 64-bit number.
import Mathlib.Algebra.Ring.Int.Defs
import Mathlib.Algebra.Ring.Nat
import WordMachine.Proofs.Outcomes
import WordMachine.Source.Cursor

namespace WordMachine

namespace Cursor

variable {α : Type}

/-! ## Calls and answers -/

/-- A call of a cursor. To peek is to look at the displacement zero, and to look at the
previous item is to look at the one before. -/
inductive Call (α : Type)
  | next
  | lookAt (k : Int64)
  | seek (k : Int64)
  | takeWhile (p : α → Bool)

/-- What a cursor answers. -/
inductive Answer (α : Type)
  | item (x : Option α)
  | moved
  | items (xs : List α)
  deriving DecidableEq

/-- What the cursor answers to a call, and the cursor behind it. -/
def answer (c : Cursor α) : Call α → Except CursorError (Answer α × Cursor α)
  | .next => .ok (.item c.next.1, c.next.2)
  | .lookAt k => (c.lookAt k).map fun x => (.item x, c)
  | .seek k => (c.seek k).map fun d => (.moved, d)
  | .takeWhile p => (c.takeWhile p).map fun r => (.items r.1, r.2)

/-- What the cursor answers to one call after the other. -/
def answers (c : Cursor α) : List (Call α) → Except CursorError (List (Answer α) × Cursor α)
  | [] => .ok ([], c)
  | call :: calls => do
    let (first, d) ← c.answer call
    let (others, e) ← d.answers calls
    return (first :: others, e)

/-! ## The same over the integers -/

namespace Call

/-- The place that a call leads to or looks at. -/
def place? (position : Nat) : Call α → Option Int
  | next | takeWhile _ => none
  | lookAt k | seek k => some (position + k.toInt)

/-- The place is too far on for a signed number. -/
def Overflows (position : Nat) (call : Call α) : Prop :=
  ∃ place, call.place? position = some place ∧ 2 ^ 63 ≤ place

/-- The answer in a row of items, and the position behind the call. -/
def exact (row : List α) (position : Nat) : Call α → Answer α × Nat
  | next => (.item row[position]?, min (position + 1) row.length)
  | lookAt k =>
    let place := position + k.toInt
    (.item (if 0 ≤ place then row[place.toNat]? else none), position)
  | seek k => (.moved, (max 0 (min (position + k.toInt) row.length)).toNat)
  | takeWhile p =>
    let taken := (row.drop position).takeWhile p
    (.items taken, position + taken.length)

/-- The answers to one call after the other. -/
def exactAll (row : List α) (position : Nat) : List (Call α) → List (Answer α) × Nat
  | [] => ([], position)
  | call :: calls =>
    let (first, behind) := call.exact row position
    let (others, last) := exactAll row behind calls
    (first :: others, last)

/-- No call leads too far on. -/
def Fit (row : List α) (position : Nat) : List (Call α) → Prop
  | [] => True
  | call :: calls => ¬ call.Overflows position ∧ Fit row (call.exact row position).2 calls

instance (position : Nat) (call : Call α) : Decidable (call.Overflows position) :=
  decidable_of_iff ((call.place? position).any (2 ^ 63 ≤ ·) = true) <| by
    unfold Overflows
    cases call.place? position <;> simp

instance decidableFit (row : List α) (position : Nat) :
    (calls : List (Call α)) → Decidable (Fit row position calls)
  | [] => inferInstanceAs (Decidable True)
  | call :: calls =>
    have := decidableFit row (call.exact row position).2 calls
    inferInstanceAs (Decidable (¬ call.Overflows position ∧ _))

end Call

/-! ## Places -/

variable {c : Cursor α}

theorem position_lt (h : c.items.size < 2 ^ 63) : c.position < 2 ^ 63 :=
  Nat.lt_of_le_of_lt c.position_le h

/-- A place that is not too far on is found. -/
theorem exists_target (h : c.items.size < 2 ^ 63) {k : Int64}
    (hk : c.position + k.toInt < 2 ^ 63) :
    ∃ place, c.target k = .ok place ∧ place.toInt = c.position + k.toInt := by
  have hlow := k.le_toInt
  have hplace : (Int64.ofInt (c.position + k.toInt)).toInt = c.position + k.toInt :=
    Int64.toInt_ofInt_of_le (by omega) hk
  refine ⟨_, target_eq_ok_iff.2 ?_, hplace⟩
  rw [hplace, Int64.toInt_ofNat_of_lt (position_lt h)]

theorem target_of_overflow (h : c.items.size < 2 ^ 63) {k : Int64}
    (hk : 2 ^ 63 ≤ c.position + k.toInt) : c.target k = .error .overflow := by
  cases ht : c.target k with
  | error e =>
    cases e
    rfl
  | ok place =>
    have hplace := target_eq_ok_iff.1 ht
    have hhigh := place.toInt_lt
    rw [Int64.toInt_ofNat_of_lt (position_lt h)] at hplace
    omega

/-! ## One call -/

theorem lookAt_eq (h : c.items.size < 2 ^ 63) {k : Int64} (hk : c.position + k.toInt < 2 ^ 63) :
    c.lookAt k = .ok (if 0 ≤ c.position + k.toInt then
      c.items.toList[(c.position + k.toInt).toNat]? else none) := by
  obtain ⟨place, ht, hplace⟩ := exists_target h hk
  unfold lookAt
  rw [ht, ← hplace]
  show Except.ok _ = Except.ok _
  congr 1
  by_cases hneg : place < 0
  · have := Int64.lt_iff_toInt_lt.1 hneg
    rw [Int64.toInt_zero] at this
    rw [if_pos hneg, if_neg (by omega)]
  · have hzero := Int64.not_lt.1 hneg
    have := Int64.le_iff_toInt_le.1 hzero
    rw [Int64.toInt_zero] at this
    rw [if_neg hneg, if_pos this, Int64.toNat_toUInt64_of_le hzero, Int64.toNatClampNeg,
      Array.getElem?_toList]

theorem seek_eq (h : c.items.size < 2 ^ 63) {k : Int64} (hk : c.position + k.toInt < 2 ^ 63) :
    ∃ d, c.seek k = .ok d ∧ d.items = c.items ∧
      d.position = (max 0 (min (c.position + k.toInt) c.items.size)).toNat := by
  obtain ⟨place, ht, hplace⟩ := exists_target h hk
  have hnonneg : 0 ≤ (Int64.ofNat c.items.size).toInt := by
    rw [Int64.toInt_ofNat_of_lt h]
    omega
  unfold seek
  rw [ht]
  refine ⟨_, rfl, rfl, ?_⟩
  show c.clamped place = _
  rw [clamped_of_nonneg hnonneg, hplace]
  omega

theorem peek_eq (h : c.items.size < 2 ^ 63) : c.peek = .ok c.items.toList[c.position]? := by
  have hlt := position_lt h
  have hzero : c.position + (0 : Int64).toInt = c.position := by simp
  unfold peek
  rw [lookAt_eq h (by omega), hzero]
  simp

/-- The loop goes on from the item after the cursor, as long as there is one that passes. -/
theorem skipWhile_eq (h : c.items.size < 2 ^ 63) (p : α → Bool) :
    ∃ d, c.skipWhile p = .ok d ∧ d.items = c.items ∧
      d.position = c.position + (c.rest.takeWhile p).length := by
  have hcons : ∀ {c : Cursor α} {x : α}, c.items.toList[c.position]? = some x →
      c.rest = x :: c.items.toList.drop (c.position + 1) := by
    intro c x hx
    obtain ⟨hlt, rfl⟩ := List.getElem?_eq_some_iff.1 hx
    exact List.drop_eq_getElem_cons hlt
  fun_induction skipWhile c p with
  | case1 c e he =>
    rw [peek_eq h] at he
    cases he
  | case2 c hn =>
    rw [peek_eq h, Except.ok.injEq, List.getElem?_eq_none_iff] at hn
    exact ⟨c, rfl, rfl, by simp [rest, List.drop_eq_nil_of_le hn]⟩
  | case3 c x hx hp ih =>
    rw [peek_eq h, Except.ok.injEq] at hx
    obtain ⟨d, hd, hitems, hposition⟩ := ih h
    have hbehind : d.position = c.position + 1 +
        ((c.items.toList.drop (c.position + 1)).takeWhile p).length := hposition
    refine ⟨d, hd, hitems, ?_⟩
    rw [hbehind, hcons hx, List.takeWhile_cons_of_pos hp, List.length_cons]
    omega
  | case4 c x hx hp =>
    rw [peek_eq h, Except.ok.injEq] at hx
    exact ⟨c, rfl, rfl, by rw [hcons hx, List.takeWhile_cons_of_neg hp]; rfl⟩

theorem takeWhile_eq (h : c.items.size < 2 ^ 63) (p : α → Bool) :
    ∃ d, c.takeWhile p = .ok (c.rest.takeWhile p, d) ∧ d.items = c.items ∧
      d.position = c.position + (c.rest.takeWhile p).length := by
  obtain ⟨d, hd, hitems, hposition⟩ := skipWhile_eq h p
  have htaken : (c.items.extract c.position d.position).toList = c.rest.takeWhile p := by
    rw [Array.toList_extract, List.extract_eq_take_drop, hposition, Nat.add_sub_cancel_left]
    exact (List.prefix_iff_eq_take.1 (List.takeWhile_prefix p)).symm
  refine ⟨d, ?_, hitems, hposition⟩
  unfold takeWhile
  rw [hd, ← htaken]
  rfl

theorem next_eq (c : Cursor α) : c.next.1 = c.items.toList[c.position]? ∧
    c.next.2.items = c.items ∧ c.next.2.position = min (c.position + 1) c.items.size := by
  have hle := c.position_le
  unfold next
  split
  · rename_i hlt
    exact ⟨by simp [hlt], rfl, (Nat.min_eq_left hlt).symm⟩
  · rename_i hge
    have heq : c.position = min (c.position + 1) c.items.size := by omega
    exact ⟨by simp [Nat.le_of_not_lt hge], rfl, heq⟩

/-- A cursor answers as over the integers if the call does not lead too far on. -/
theorem answer_of_fits (h : c.items.size < 2 ^ 63) {call : Call α}
    (hfits : ¬ call.Overflows c.position) : ∃ d,
      c.answer call = .ok ((call.exact c.items.toList c.position).1, d) ∧ d.items = c.items ∧
        d.position = (call.exact c.items.toList c.position).2 := by
  have hplace : ∀ {place : Int}, call.place? c.position = some place → place < 2 ^ 63 := by
    intro place hp
    exact Int.not_le.1 fun hle => hfits ⟨place, hp, hle⟩
  cases call with
  | next =>
    obtain ⟨hitem, hitems, hposition⟩ := c.next_eq
    exact ⟨c.next.2, by rw [answer, hitem]; rfl, hitems, hposition⟩
  | lookAt k =>
    refine ⟨c, ?_, rfl, rfl⟩
    rw [answer, lookAt_eq h (hplace rfl)]
    rfl
  | seek k =>
    obtain ⟨d, hd, hitems, hposition⟩ := seek_eq h (hplace rfl)
    exact ⟨d, by rw [answer, hd]; rfl, hitems, hposition⟩
  | takeWhile p =>
    obtain ⟨d, hd, hitems, hposition⟩ := takeWhile_eq h p
    exact ⟨d, by rw [answer, hd]; rfl, hitems, hposition⟩

theorem answer_of_overflows (h : c.items.size < 2 ^ 63) {call : Call α}
    (hover : call.Overflows c.position) : c.answer call = .error .overflow := by
  obtain ⟨place, hplace, hlarge⟩ := hover
  cases call with
  | next | takeWhile p => cases hplace
  | lookAt k =>
    cases hplace
    rw [answer, lookAt, target_of_overflow h hlarge]
    rfl
  | seek k =>
    cases hplace
    rw [answer, seek, target_of_overflow h hlarge]
    rfl

/-! ## One call after the other -/

/-- Each call that fits leaves a cursor in the same row, from which the others are answered. -/
theorem answers_of_fit (h : c.items.size < 2 ^ 63) {calls : List (Call α)}
    (hfit : Call.Fit c.items.toList c.position calls) : ∃ d,
      c.answers calls = .ok ((Call.exactAll c.items.toList c.position calls).1, d) ∧
        d.items = c.items ∧ d.position = (Call.exactAll c.items.toList c.position calls).2 := by
  induction calls generalizing c with
  | nil => exact ⟨c, rfl, rfl, rfl⟩
  | cons call calls ih =>
    obtain ⟨hcall, hothers⟩ := hfit
    obtain ⟨d, hd, hitems, hposition⟩ := answer_of_fits h hcall
    rw [← hposition, ← hitems] at hothers
    obtain ⟨e, he, heitems, heposition⟩ := ih (hitems ▸ h) hothers
    rw [hitems, hposition] at he heposition
    refine ⟨e, ?_, heitems.trans hitems, heposition⟩
    rw [answers, hd]
    show (d.answers calls >>= _) = _
    rw [he]
    rfl

theorem answers_of_not_fit (h : c.items.size < 2 ^ 63) {calls : List (Call α)}
    (hfit : ¬ Call.Fit c.items.toList c.position calls) :
    c.answers calls = .error .overflow := by
  induction calls generalizing c with
  | nil => exact absurd trivial hfit
  | cons call calls ih =>
    by_cases hcall : call.Overflows c.position
    · rw [answers, answer_of_overflows h hcall]
      rfl
    · obtain ⟨d, hd, hitems, hposition⟩ := answer_of_fits h hcall
      have hothers : ¬ Call.Fit d.items.toList d.position calls := by
        rw [hitems, hposition]
        exact fun hcalls => hfit ⟨hcall, hcalls⟩
      rw [answers, hd]
      show (d.answers calls >>= _) = _
      rw [ih (hitems ▸ h) hothers]
      rfl

/-- In a row of fewer than `2 ^ 63` items a cursor answers all calls as over the integers, one
after the other, and ends where they lead, between the ends of the row. But if one of them
leads to a place, or looks at one, that is too far on for a signed number, there is no answer. -/
theorem a_cursor_moves_over_the_integers_until_a_sum_overflows {items : Array α}
    (h : items.size < 2 ^ 63) (calls : List (Call α)) :
    (Call.Fit items.toList 0 calls → ∃ d,
      (ofArray items (Nat.lt_trans h (by decide))).answers calls =
          .ok ((Call.exactAll items.toList 0 calls).1, d) ∧
        d.items = items ∧ d.position = (Call.exactAll items.toList 0 calls).2 ∧
        d.position ≤ items.size) ∧
    (¬ Call.Fit items.toList 0 calls →
      (ofArray items (Nat.lt_trans h (by decide))).answers calls = .error .overflow) := by
  refine ⟨fun hfit => ?_, fun hfit => answers_of_not_fit h hfit⟩
  obtain ⟨d, hd, hitems, hposition⟩ := answers_of_fit (c := ofArray items _) h hfit
  have hend : d.position ≤ d.items.size := d.position_le
  rw [hitems] at hend
  exact ⟨d, hd, hitems, hposition, hend⟩

/-- From the second item on the largest displacement but one, back by the smallest one, and on
over the items below three. -/
def farCalls : List (Call Nat) :=
  [.next, .seek (Int64.maxValue - 1), .seek Int64.minValue, .takeWhile (· < 3), .lookAt (-2)]

theorem far_calls_lead_to_the_last_item :
    #[1, 2, 3].size < 2 ^ 63 ∧ Call.Fit [1, 2, 3] 0 farCalls ∧
      ∃ d, (ofArray #[1, 2, 3] (by decide)).answers farCalls =
          .ok ([.item (some 1), .moved, .moved, .items [1, 2], .item (some 1)], d) ∧
        d.position = 2 := by
  have hfit : Call.Fit [1, 2, 3] 0 farCalls := by decide
  have hsize : #[1, 2, 3].size < 2 ^ 63 := by decide
  obtain ⟨d, hd, -, hposition, -⟩ :=
    (a_cursor_moves_over_the_integers_until_a_sum_overflows hsize farCalls).1 hfit
  have hexact : Call.exactAll [1, 2, 3] 0 farCalls =
      ([.item (some 1), .moved, .moved, .items [1, 2], .item (some 1)], 2) := by decide
  rw [hexact] at hd hposition
  exact ⟨hsize, hfit, d, hd, hposition⟩

/-- Over the integers the largest displacement leads from the second of three items to the end,
but the sum is no signed number. -/
theorem the_largest_displacement_leads_too_far :
    (ofArray #[1, 2, 3] (by decide)).answers [.next, .seek Int64.maxValue] = .error .overflow ∧
      Call.exactAll [1, 2, 3] 0 [.next, .seek Int64.maxValue] =
        ([.item (some 1), .moved], 3) := by
  exact ⟨rfl, by decide⟩

end Cursor

end WordMachine
