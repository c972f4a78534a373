import Transparency.Bytes.Hex

/-!
# Hexadecimal text and back

What was written is read again, and a text is read just if it is one that could have been written,
but for the case of its letters. Of a text that is not, the longest run of whole pairs of digits at
its front is read, unless its length rules it out before.
-/
namespace Transparency.Hex

variable {c high low v b : UInt8} {text bs : Bytes}

/-- Whether a code is that of a digit, of either case. -/
def IsDigit (c : UInt8) : Prop := 48 ≤ c ∧ c ≤ 57 ∨ 65 ≤ c ∧ c ≤ 70 ∨ 97 ≤ c ∧ c ≤ 102

instance (c : UInt8) : Decidable (IsDigit c) := inferInstanceAs (Decidable (_ ∨ _))

/-- The code of a small letter as a capital one; all other codes stay. -/
def capital (c : UInt8) : UInt8 := if 97 ≤ c ∧ c ≤ 122 then c - 32 else c

/-- Whether `bs` are what the longest run of whole pairs of digits at the front of a text spells. -/
structure Leads (text bs : Bytes) : Prop where
  within : 2 * bs.length ≤ text.length
  digits : ∀ c ∈ text.take (2 * bs.length), IsDigit c
  spelling : encode bs = (text.take (2 * bs.length)).map capital
  longest : ∀ n, 2 * n ≤ text.length → (∀ c ∈ text.take (2 * n), IsDigit c) → n ≤ bs.length

/-! ## Digits -/

theorem value?_eq_none_iff : value? c = none ↔ ¬ IsDigit c := by
  unfold value? IsDigit
  split <;> simp_all
  split <;> simp_all

/-- What holds of all numbers that a byte can be holds of all bytes. -/
theorem forall_of_numbers {p : UInt8 → Prop} (all : ∀ n : Fin 256, p (.ofNat n)) (c : UInt8) :
    p c := by
  have one := all ⟨c.toNat, c.toNat_lt⟩
  rwa [UInt8.ofNat_toNat] at one

theorem capital_of_value? (found : value? c = some v) : v < 16 ∧ digit v = capital c := by
  have all : ∀ c, ∀ v ∈ value? c, v < 16 ∧ digit v = capital c :=
    forall_of_numbers (by decide +kernel)
  exact all c v found

theorem value?_digit (small : v < 16) : value? (digit v) = some v := by
  have all : ∀ v, v < 16 → value? (digit v) = some v := forall_of_numbers (by decide +kernel)
  exact all v small

/-- A byte is put together from its halves. -/
theorem halves_join (b : UInt8) :
    b >>> 4 < 16 ∧ b &&& 15 < 16 ∧ (b >>> 4) <<< 4 ||| (b &&& 15) = b := by
  have all : ∀ b : UInt8, b >>> 4 < 16 ∧ b &&& 15 < 16 ∧ (b >>> 4) <<< 4 ||| (b &&& 15) = b :=
    forall_of_numbers (by decide +kernel)
  exact all b

/-- The halves of a byte are those that it was put together from. -/
theorem join_halves (smallHigh : high < 16) (smallLow : low < 16) :
    (high <<< 4 ||| low) >>> 4 = high ∧ (high <<< 4 ||| low) &&& 15 = low := by
  have all : ∀ h l : Fin 16, let b := UInt8.ofNat h <<< 4 ||| UInt8.ofNat l
      b >>> 4 = .ofNat h ∧ b &&& 15 = .ofNat l := by
    decide +kernel
  have one := all ⟨high.toNat, UInt8.lt_iff_toNat_lt.1 smallHigh⟩
    ⟨low.toNat, UInt8.lt_iff_toNat_lt.1 smallLow⟩
  simpa using one

/-! ## Pairs -/

theorem encode_cons (b : UInt8) (bs : Bytes) :
    encode (b :: bs) = digit (b >>> 4) :: digit (b &&& 15) :: encode bs := rfl

theorem length_encode (bs : Bytes) : (encode bs).length = 2 * bs.length := by
  induction bs with
  | nil => rfl
  | cons b bs ih =>
    rw [encode_cons, List.length_cons, List.length_cons, List.length_cons, ih]
    omega

theorem pair?_halves (b : UInt8) : pair? (digit (b >>> 4)) (digit (b &&& 15)) = some b := by
  obtain ⟨high, low, whole⟩ := halves_join b
  rw [pair?, value?_digit high, value?_digit low]
  exact congrArg some whole

theorem pair?_eq_none_iff : pair? high low = none ↔ ¬ (IsDigit high ∧ IsDigit low) := by
  have isDigit (c : UInt8) : IsDigit c ↔ value? c ≠ none := by
    rw [Ne, value?_eq_none_iff, Decidable.not_not]
  rw [isDigit, isDigit, pair?]
  cases value? high <;> cases value? low <;> simp

/-- A byte that is read is written with the digits of its pair, as capitals. -/
theorem encode_of_pair? (found : pair? high low = some b) :
    encode [b] = [capital high, capital low] := by
  unfold pair? at found
  split at found
  · next h l foundHigh foundLow =>
    obtain rfl := Option.some.inj found
    obtain ⟨smallHigh, digitHigh⟩ := capital_of_value? foundHigh
    obtain ⟨smallLow, digitLow⟩ := capital_of_value? foundLow
    obtain ⟨halfHigh, halfLow⟩ := join_halves smallHigh smallLow
    rw [encode_cons, halfHigh, halfLow, digitHigh, digitLow]
    rfl
  · cases found

/-! ## Runs of pairs -/

theorem Leads.of_pair?_none (none : pair? high low = none) (rest : Bytes) :
    Leads (high :: low :: rest) [] := by
  refine ⟨Nat.zero_le _, fun c member => (nomatch member), rfl, fun n _ digits => ?_⟩
  cases n with
  | zero => exact Nat.le_refl 0
  | succ n =>
    rw [Nat.mul_succ, List.take_succ_cons, List.take_succ_cons, List.forall_mem_cons,
      List.forall_mem_cons] at digits
    exact absurd ⟨digits.1, digits.2.1⟩ (pair?_eq_none_iff.1 none)

theorem Leads.cons {rest : Bytes} (found : pair? high low = some b) (leads : Leads rest bs) :
    Leads (high :: low :: rest) (b :: bs) := by
  have spelt := encode_of_pair? found
  have isDigit : IsDigit high ∧ IsDigit low :=
    Decidable.not_not.1 (mt pair?_eq_none_iff.2 (by simp [found]))
  have front (n : Nat) : (high :: low :: rest).take (2 * (n + 1)) =
      high :: low :: rest.take (2 * n) := by
    rw [Nat.mul_succ, List.take_succ_cons, List.take_succ_cons]
  constructor
  case within =>
    have within := leads.within
    simp only [List.length_cons]
    omega
  case digits =>
    rw [List.length_cons, front, List.forall_mem_cons, List.forall_mem_cons]
    exact ⟨isDigit.1, isDigit.2, leads.digits⟩
  case spelling =>
    rw [List.length_cons, front, List.map_cons, List.map_cons, ← leads.spelling]
    exact congrArg (· ++ encode bs) spelt
  case longest =>
    intro n within digits
    cases n with
    | zero => exact Nat.zero_le _
    | succ n =>
      rw [front, List.forall_mem_cons, List.forall_mem_cons] at digits
      simp only [List.length_cons] at within
      exact Nat.succ_le_succ (leads.longest n (by omega) digits.2.2)

theorem leads_pairs (text : Bytes) : Leads text (pairs text).1 := by
  -- What is read of a text grows at its front, and a single code left over makes no pair.
  fun_induction pairs text with
  | case1 =>
    refine ⟨Nat.le_refl 0, fun c member => (nomatch member), rfl, fun n within _ => ?_⟩
    rw [List.length_nil] at within
    exact Nat.le_of_mul_le_mul_left within Nat.two_pos
  | case2 c =>
    refine ⟨Nat.zero_le 1, fun c member => (nomatch member), rfl, fun n within _ => ?_⟩
    rw [List.length_singleton] at within
    omega
  | case3 high low rest none => exact .of_pair?_none none rest
  | case4 high low rest b found bs whole read ih =>
    rw [read] at ih
    exact .cons found ih

theorem whole_pairs_iff (text : Bytes) :
    (pairs text).2 = true ↔ text.length = 2 * (pairs text).1.length := by
  fun_induction pairs text with
  | case1 => simp
  | case2 c => simp
  | case3 high low rest none => simp
  | case4 high low rest b found bs whole read ih =>
    rw [read] at ih
    simp only [List.length_cons, ih]
    omega

/-- A run is the whole text just if that is made of pairs of digits alone. -/
theorem Leads.length_eq_iff (leads : Leads text bs) :
    text.length = 2 * bs.length ↔ text.length % 2 = 0 ∧ ∀ c ∈ text, IsDigit c := by
  constructor
  · intro whole
    have digits := leads.digits
    rw [← whole, List.take_length] at digits
    exact ⟨by omega, digits⟩
  · rintro ⟨even, digits⟩
    have most := leads.longest (text.length / 2) (by omega) fun c member =>
      digits c (List.mem_of_mem_take member)
    have within := leads.within
    omega

/-- A text is read whole just if it is made of pairs of digits alone. -/
theorem whole_pairs_iff_digits (text : Bytes) :
    (pairs text).2 = true ↔ text.length % 2 = 0 ∧ ∀ c ∈ text, IsDigit c :=
  (whole_pairs_iff text).trans (leads_pairs text).length_eq_iff

theorem encode_pairs_of_whole (whole : (pairs text).2 = true) :
    encode (pairs text).1 = text.map capital := by
  have spelling := (leads_pairs text).spelling
  rwa [← (whole_pairs_iff text).1 whole, List.take_length] at spelling

theorem pairs_encode (bs : Bytes) : pairs (encode bs) = (bs, true) := by
  induction bs with
  | nil => rfl
  | cons b bs ih => rw [encode_cons, pairs, pair?_halves, ih]

/-! ## Outputs -/

theorem run_appendPairs (text prior : Bytes) :
    (appendPairs text).run prior = ((pairs text).2, prior ++ (pairs text).1) := by
  fun_induction pairs text generalizing prior with
  | case1 => exact congrArg (Prod.mk true) (List.append_nil prior).symm
  | case2 c => exact congrArg (Prod.mk false) (List.append_nil prior).symm
  | case3 high low rest none =>
    rw [appendPairs, none, List.append_nil]
    rfl
  | case4 high low rest b found bs whole read ih =>
    rw [read] at ih
    have step : (appendPairs (high :: low :: rest)).run prior =
        (appendPairs rest).run (prior ++ [b]) := by
      rw [appendPairs, found]
      rfl
    rw [step, ih, List.append_assoc]
    rfl

/-- Adding leaves what reading by itself yields after what was there. -/
theorem run_append (text prior : Bytes) :
    (append text).run prior = ((decode text).2, prior ++ (decode text).1) := by
  unfold append decode
  split
  · exact congrArg (Prod.mk false) (List.append_nil prior).symm
  · exact run_appendPairs text prior

theorem decode_of_even (some : text ≠ []) (even : text.length % 2 = 0) :
    decode text = pairs text := by
  simp [decode, some, even]

theorem decode_of_refused (refused : text = [] ∨ text.length % 2 = 1) :
    decode text = ([], false) := by
  unfold decode
  obtain rfl | odd := refused
  · rfl
  · simp [odd]

/-- What was written is read again after whatever was there. A text is read just if it is some
digits of even number, and then its capitals are what is written of the bytes. Of any other text the
bytes of its leading pairs of digits are added, or none if its length is odd or zero. -/
theorem append_inverts_encode (prior : Bytes) :
    (∀ bs, bs ≠ [] → (append (encode bs)).run prior = (true, prior ++ bs)) ∧
    ∀ text, ∃ whole bs, (append text).run prior = (whole, prior ++ bs) ∧
      (whole = true ↔ text ≠ [] ∧ text.length % 2 = 0 ∧ ∀ c ∈ text, IsDigit c) ∧
      (whole = true → encode bs = text.map capital) ∧
      (whole = false → text = [] ∨ text.length % 2 = 1 → bs = []) ∧
      (whole = false → text.length % 2 = 0 → Leads text bs) := by
  constructor
  · intro bs some
    have length := length_encode bs
    have some' : encode bs ≠ [] := by
      have positive := List.length_pos_iff.2 some
      exact List.length_pos_iff.1 (by omega)
    rw [run_append, decode_of_even some' (by omega), pairs_encode]
  · intro text
    by_cases refused : text = [] ∨ text.length % 2 = 1
    · refine ⟨false, [], ?_, ?_, nofun, fun _ _ => rfl, fun _ even => ?_⟩
      · rw [run_append, decode_of_refused refused]
      · refine iff_of_false Bool.false_ne_true fun ⟨nonempty, even, _⟩ => ?_
        exact refused.elim nonempty fun odd => by omega
      · obtain rfl : text = [] := refused.resolve_right (by omega)
        exact leads_pairs []
    · obtain ⟨some, odd⟩ := not_or.1 refused
      have even : text.length % 2 = 0 := by omega
      refine ⟨(pairs text).2, (pairs text).1, ?_, ?_, encode_pairs_of_whole,
        fun _ again => absurd again refused, fun _ _ => leads_pairs text⟩
      · rw [run_append, decode_of_even some even]
      · rw [whole_pairs_iff_digits]
        exact ⟨fun read => ⟨some, read⟩, And.right⟩

/-- Of four letters the first two are digits, of either case, and the others are not. -/
theorem append_inverts_encode_mixed :
    (append (encode [0x0f, 0xe4])).run [7] = (true, [7, 0x0f, 0xe4]) ∧
      (append [0x65, 0x46, 0x67, 0x68]).run [7] = (false, [7, 0xef]) ∧
      Leads [0x65, 0x46, 0x67, 0x68] [0xef] := by
  obtain ⟨again, read⟩ := append_inverts_encode [7]
  refine ⟨again [0x0f, 0xe4] (by decide), rfl, ?_⟩
  obtain ⟨whole, bs, ran, -, -, -, partly⟩ := read [0x65, 0x46, 0x67, 0x68]
  obtain ⟨rfl, added⟩ := Prod.mk.inj ran
  obtain rfl : [0xef] = bs := List.append_cancel_left added
  exact partly rfl rfl

end Transparency.Hex
