import Mathlib.Data.List.Induction
import Mathlib.Tactic.SplitIfs
import Transparency.Journal

/-!
# What the thresholds admit

The rule for verbose messages is one about integers: they are admitted up to the verbosity, and up to
the negated minimum. Thresholds are numbers of 32 bits, and there the least one has no negation. So
the rule fails under the least minimum, which admits no more than the verbosity does.
-/
namespace Transparency.Journal

variable {settings : List Setting} {m n v : Int32}

/-! ## The rule -/

namespace Setting

def minimum? : Setting → Option Int32
  | minimum m => some m
  | verbosity _ => none

def verbosity? : Setting → Option Int32
  | minimum _ => none
  | verbosity v => some v

end Setting

def lastMinimum (settings : List Setting) : Int32 :=
  (settings.filterMap Setting.minimum?).getLastD 0

def lastVerbosity (settings : List Setting) : Int32 :=
  (settings.filterMap Setting.verbosity?).getLastD 0

/-- The last minimum, or `fatal` if that is lower. -/
def effectiveMinimum (settings : List Setting) : Int :=
  min (lastMinimum settings).toInt fatal.toInt

/-- Whether verbose messages of a level are to be written, by the rule about integers. -/
def Wanted (settings : List Setting) (n : Int32) : Prop :=
  n.toInt ≤ (lastVerbosity settings).toInt ∨ n.toInt ≤ -effectiveMinimum settings

/-- Whether the negated minimum takes more than 32 bits, and only that would admit a level. -/
structure Overflows (settings : List Setting) (n : Int32) : Prop where
  minimum : effectiveMinimum settings = Int32.minValue.toInt
  verbosity : (lastVerbosity settings).toInt < n.toInt

/-- Whether a statement makes a message after settings. -/
def Writes (settings : List Setting) (s : Statement) : Prop :=
  (s.message? (Levels.applyAll {} settings)).isSome = true

instance (settings : List Setting) (s : Statement) : Decidable (Writes settings s) :=
  inferInstanceAs (Decidable (_ = true))

/-! ## Settings -/

theorem lastMinimum_concat_minimum :
    lastMinimum (settings ++ [.minimum m]) = m := by
  simp [lastMinimum, Setting.minimum?]

theorem lastMinimum_concat_verbosity :
    lastMinimum (settings ++ [.verbosity v]) = lastMinimum settings := by
  simp [lastMinimum, Setting.minimum?]

theorem lastVerbosity_concat_minimum :
    lastVerbosity (settings ++ [.minimum m]) = lastVerbosity settings := by
  simp [lastVerbosity, Setting.verbosity?]

theorem lastVerbosity_concat_verbosity :
    lastVerbosity (settings ++ [.verbosity v]) = v := by
  simp [lastVerbosity, Setting.verbosity?]

theorem applyAll_concat (l : Levels) (settings : List Setting) (s : Setting) :
    l.applyAll (settings ++ [s]) = (l.applyAll settings).apply s := by
  simp [Levels.applyAll]

theorem toInt_setMinimum (l : Levels) (m : Int32) :
    (l.setMinimum m).minimum.toInt = min m.toInt fatal.toInt := by
  simp only [Levels.setMinimum, Int32.lt_iff_toInt_lt]
  split_ifs <;> omega

theorem toInt_minimum_applyAll (settings : List Setting) :
    (Levels.applyAll {} settings).minimum.toInt = effectiveMinimum settings := by
  induction settings using List.reverseRecOn with
  | nil => rfl
  | append_singleton settings s ih =>
    rw [applyAll_concat]
    cases s with
    | minimum m => rw [Levels.apply, toInt_setMinimum, effectiveMinimum, lastMinimum_concat_minimum]
    | verbosity v => rw [effectiveMinimum, lastMinimum_concat_verbosity]; exact ih

theorem verbosity_applyAll (settings : List Setting) :
    (Levels.applyAll {} settings).verbosity = lastVerbosity settings := by
  induction settings using List.reverseRecOn with
  | nil => rfl
  | append_singleton settings s ih =>
    rw [applyAll_concat]
    cases s with
    | minimum m => rw [lastVerbosity_concat_minimum]; exact ih
    | verbosity v => rw [lastVerbosity_concat_verbosity]; rfl

/-! ## Messages -/

theorem toInt_neg (above : m.toInt ≠ Int32.minValue.toInt) : (-m).toInt = -m.toInt := by
  have least := m.le_toInt
  have bound := m.toInt_lt
  rw [Int32.toInt_minValue] at above
  rw [Int32.toInt_neg]
  exact Int.bmod_eq_of_le (by omega) (by omega)

theorem le_effectiveVerbosity_iff (l : Levels) :
    n ≤ l.effectiveVerbosity ↔ n ≤ l.verbosity ∨ n ≤ -l.minimum := by
  simp only [Levels.effectiveVerbosity, Int32.lt_iff_toInt_lt, Int32.le_iff_toInt_le]
  split_ifs <;> omega

/-- The negated minimum counts unless it is the least one, which negation leaves as it is. -/
theorem admits_verbose_iff (l : Levels) :
    l.admits (.verbose n) = true ↔
      n.toInt ≤ l.verbosity.toInt ∨
        l.minimum.toInt ≠ Int32.minValue.toInt ∧ n.toInt ≤ -l.minimum.toInt := by
  rw [Levels.admits, decide_eq_true_iff, le_effectiveVerbosity_iff, Int32.le_iff_toInt_le,
    Int32.le_iff_toInt_le]
  by_cases least : l.minimum.toInt = Int32.minValue.toInt
  · have same : -l.minimum = Int32.minValue := by rw [Int32.toInt_inj.1 least]; rfl
    have bound := l.verbosity.minValue_le_toInt
    rw [same]
    constructor
    · rintro (admitted | admitted)
      · exact .inl admitted
      · exact .inl (Int.le_trans admitted bound)
    · rintro (admitted | ⟨above, -⟩)
      · exact .inl admitted
      · exact absurd least above
  · rw [toInt_neg least]
    exact or_congr_right (and_iff_right least).symm

theorem writes_log_iff {channel : Channel} {text : String} :
    Writes settings (.log channel true text) ↔
      (Levels.applyAll {} settings).admits channel = true := by
  rw [Writes, Statement.message?, Bool.and_true]
  cases (Levels.applyAll {} settings).admits channel <;> simp

theorem writes_verbose_iff {text : String} :
    Writes settings (.log (.verbose n) true text) ↔ Wanted settings n ∧ ¬ Overflows settings n := by
  rw [writes_log_iff, admits_verbose_iff, toInt_minimum_applyAll, verbosity_applyAll, Wanted]
  have overflows : Overflows settings n ↔ effectiveMinimum settings = Int32.minValue.toInt ∧
      (lastVerbosity settings).toInt < n.toInt :=
    ⟨fun o => ⟨o.minimum, o.verbosity⟩, fun o => ⟨o.1, o.2⟩⟩
  rw [overflows]
  omega

theorem writes_fatal (settings : List Setting) (text : String) :
    Writes settings (.log (.severity fatal) true text) := by
  have capped : effectiveMinimum settings ≤ fatal.toInt := Int.min_le_right _ _
  rw [writes_log_iff, Levels.admits, decide_eq_true_iff, Int32.le_iff_toInt_le,
    toInt_minimum_applyAll]
  exact capped

theorem Overflows.wanted (overflows : Overflows settings n) : Wanted settings n := by
  have bound := n.toInt_lt
  right
  rw [overflows.minimum, Int32.toInt_minValue]
  omega

theorem Wanted.lowered (wanted : Wanted settings n)
    (lower : min m.toInt fatal.toInt ≤ effectiveMinimum settings) :
    Wanted (settings ++ [.minimum m]) n := by
  have effective : effectiveMinimum (settings ++ [.minimum m]) = min m.toInt fatal.toInt := by
    rw [effectiveMinimum, lastMinimum_concat_minimum]
  unfold Wanted at wanted ⊢
  rw [effective, lastVerbosity_concat_minimum]
  omega

/-- Whatever was set before, verbose messages are written by the rule unless the negated minimum
takes more than 32 bits, and are then kept back. A lower minimum keeps back what was written just
in that case, and fatal messages are written in all cases. -/
theorem writes_iff_wanted (settings : List Setting) (text : String) :
    (∀ n, ((Writes settings (.log (.verbose n) true text) ↔ Wanted settings n) ↔
        ¬ Overflows settings n) ∧
      (Overflows settings n → ¬ Writes settings (.log (.verbose n) true text))) ∧
    (∀ m n, min m.toInt fatal.toInt ≤ effectiveMinimum settings →
      Writes settings (.log (.verbose n) true text) →
      (Writes (settings ++ [.minimum m]) (.log (.verbose n) true text) ↔
        ¬ Overflows (settings ++ [.minimum m]) n)) ∧
    Writes settings (.log (.severity fatal) true text) := by
  refine ⟨fun n => ⟨?_, ?_⟩, fun m n lower written => ?_, writes_fatal settings text⟩
  · rw [writes_verbose_iff]
    constructor
    · intro rule overflows
      exact (rule.2 overflows.wanted).2 overflows
    · exact and_iff_left
  · intro overflows
    rw [writes_verbose_iff]
    exact fun written => written.2 overflows
  · rw [writes_verbose_iff] at written ⊢
    exact and_iff_right (written.1.lowered lower)

/-- A minimum above the negated level is lowered as far as negation goes. -/
theorem writes_iff_wanted_lowered :
    let settings : List Setting := [.verbosity 2, .minimum 7, .minimum (-5)]
    let lowered := settings ++ [.minimum (-2147483647)]
    (min (-2147483647 : Int32).toInt fatal.toInt ≤ effectiveMinimum settings ∧
        Writes settings (.log (.verbose 5) true "five")) ∧
      ¬ Overflows lowered 5 ∧ Writes lowered (.log (.verbose 5) true "five") := by
  intro settings lowered
  have lower : min (-2147483647 : Int32).toInt fatal.toInt ≤ effectiveMinimum settings := by decide
  have written : Writes settings (.log (.verbose 5) true "five") := by decide
  have fits : ¬ Overflows lowered 5 := by
    rintro ⟨minimum, -⟩
    exact absurd minimum (by decide)
  obtain ⟨-, keeps, -⟩ := writes_iff_wanted settings "five"
  exact ⟨⟨lower, written⟩, fits, (keeps _ 5 lower written).2 fits⟩

/-- Lowered by one more, the minimum keeps back what it had admitted. -/
theorem not_writes_of_least :
    let text := "one"
    let settings : List Setting := [.minimum (-2147483647)]
    let lowered := settings ++ [.minimum (-2147483648)]
    Writes settings (.log (.verbose 1) true text) ∧ Wanted lowered 1 ∧
      ¬ (Writes lowered (.log (.verbose 1) true text) ↔ Wanted lowered 1) := by
  intro text settings lowered
  have written : Writes settings (.log (.verbose 1) true text) := by decide
  have wanted : Wanted lowered 1 := .inr (by decide)
  have kept : ¬ Writes lowered (.log (.verbose 1) true text) := by decide
  exact ⟨written, wanted, fun rule => kept (rule.2 wanted)⟩

end Transparency.Journal
