import Transparency.Ber.Value
import Transparency.Proofs.Ber.Locality

/-!
# Elements that are taken whole

A string that is sent in pieces is a list of them, and an element that is taken as it stands is
skipped up to its end. Both are taken the same whatever follows.
-/
namespace Transparency

namespace Ber

variable {α : Type} {reader : Reader α} {bs inner rest : Bytes} {a : α} {h : Header}

/-! ## Strings -/

/-- With fuel for all of its input, a reader takes the same as with more. -/
theorem LocalWith.eq_of_enough {readers : Nat → Reader α} {fuel : Nat}
    (all : ∀ fuel, LocalWith fuel readers) (enough : bs.length ≤ fuel) :
    readers fuel bs = readers bs.length bs := by
  have least : ∀ fuel fuel' x, bs.length ≤ fuel → bs.length ≤ fuel' → readers fuel bs = some x →
      readers fuel' bs = some x := by
    intro fuel fuel' ⟨a, rest⟩ enough enough' read
    obtain ⟨bytes, rfl, again⟩ := all fuel _ _ _ enough read
    exact (again rest fuel' rfl enough').1
  refine Option.ext fun x => ?_
  exact ⟨least _ _ x enough (Nat.le_refl _), least _ _ x (Nat.le_refl _) enough⟩

theorem delimited_congr {reader' : Reader α} (length : Option Nat)
    (same : ∀ inner : Bytes, inner.length ≤ bs.length → reader inner = reader' inner) :
    delimited length reader bs = delimited length reader' bs := by
  cases length with
  | none => simp only [delimited, same bs (Nat.le_refl _)]
  | some n =>
    rw [delimited, delimited]
    cases split : Bytes.split? n bs with
    | none => rfl
    | some parts =>
      obtain ⟨inner, rest⟩ := parts
      obtain ⟨rfl, -⟩ := Bytes.split?_eq_some_iff.1 split
      simp only [Option.bind_eq_bind, Option.bind_some, same inner (by simp)]

/-- Reads one piece of a string. -/
def piece (depth : Nat) : Reader Bytes := fun bs => do
  let (h, bs) ← readHeader? bs
  if h.constructed then
    if depth = 0 then none else delimited h.length (fun bs => pieces bs.length (depth - 1) bs) bs
  else Bytes.split? (h.length.getD 0) bs

theorem framed_piece {depth : Nat}
    (deeper : depth ≠ 0 → Local fun bs => pieces bs.length (depth - 1) bs) :
    Framed (piece depth) := by
  unfold piece
  refine framed_element fun h => ?_
  by_cases nested : h.constructed = true
  · by_cases deepest : depth = 0
    · simpa only [if_pos nested, if_pos deepest] using closes_none _
    · simpa only [if_pos nested, if_neg deepest] using closes_delimited _ (deeper deepest)
  · simpa only [if_neg nested] using closes_split? _

theorem pieces_succ {depth fuel : Nat}
    (deeper : depth ≠ 0 → ∀ fuel, LocalWith fuel fun fuel => pieces fuel (depth - 1))
    (enough : bs.length ≤ fuel + 1) (goesOn : ¬ atEnd bs = true) :
    pieces (fuel + 1) depth bs = do
      let (part, bs) ← piece depth bs
      let (more, bs) ← pieces fuel depth bs
      return (part ++ more, bs) := by
  rw [pieces, if_neg goesOn, piece]
  cases header : readHeader? bs with
  | none => rfl
  | some read =>
    obtain ⟨h, inner⟩ := read
    obtain ⟨-, head, two, rfl, -⟩ := readHeader?_local header
    rw [List.length_append] at enough
    by_cases nested : h.constructed = true
    · by_cases deepest : depth = 0
      · simp [nested, deepest]
      · have same : delimited h.length (fun bs => pieces bs.length (depth - 1) bs) inner =
            delimited h.length (pieces fuel (depth - 1)) inner :=
          delimited_congr _ fun part shorter =>
            (LocalWith.eq_of_enough (deeper deepest) (by omega)).symm
        simp [nested, deepest, same]
    · simp [nested]

/-- A string in pieces is a list of them. -/
theorem pieces_eq_many {depth : Nat}
    (deeper : depth ≠ 0 → ∀ fuel, LocalWith fuel fun fuel => pieces fuel (depth - 1)) {fuel : Nat}
    (enough : bs.length ≤ fuel) :
    pieces fuel depth bs =
      (many (piece depth) fuel bs).map fun (parts, rest) => (parts.flatten, rest) := by
  have framed : Framed (piece depth) := framed_piece fun more => LocalWith.local (deeper more)
  induction fuel generalizing bs with
  | zero => rfl
  | succ fuel ih =>
    by_cases ended : atEnd bs = true
    · rw [pieces, many, if_pos ended, if_pos ended]
      rfl
    · rw [pieces_succ deeper enough ended, many, if_neg ended]
      cases read : piece depth bs with
      | none => rfl
      | some taken =>
        obtain ⟨part, rest⟩ := taken
        obtain ⟨bytes, nonempty, rfl, -⟩ := framed.frame read
        have positive := List.length_pos_iff.2 nonempty
        rw [List.length_append] at enough
        have shorter : rest.length ≤ fuel := by omega
        simp only [Option.bind_eq_bind, Option.bind_some, ih shorter]
        cases many (piece depth) fuel rest <;> rfl

theorem localWith_pieces (depth : Nat) : ∀ fuel, LocalWith fuel fun fuel => pieces fuel depth := by
  -- One level is a list of pieces, each of which is local by the level below.
  have level : ∀ depth,
      (depth ≠ 0 → ∀ fuel, LocalWith fuel fun fuel => pieces fuel (depth - 1)) →
      ∀ fuel, LocalWith fuel fun fuel => pieces fuel depth := by
    intro depth deeper fuel bs a rest enough read
    have framed : Framed (piece depth) := framed_piece fun more => LocalWith.local (deeper more)
    beta_reduce at read
    rw [pieces_eq_many deeper enough] at read
    obtain ⟨⟨parts, rest₀⟩, readMany, same⟩ := Option.map_eq_some_iff.1 read
    obtain ⟨rfl, rfl⟩ := Prod.mk.inj same
    obtain ⟨bytes, rfl, again⟩ := localWith_many framed fuel _ _ _ enough readMany
    refine ⟨bytes, rfl, fun rest' fuel' seen enough' => ?_⟩
    obtain ⟨many', seen'⟩ := again rest' fuel' seen enough'
    refine ⟨?_, seen'⟩
    beta_reduce
    rw [pieces_eq_many deeper enough', many']
    rfl
  induction depth with
  | zero => exact level 0 fun more => absurd rfl more
  | succ depth ih => exact level (depth + 1) fun _ => ih

theorem closes_stringContents (h : Header) : Closes (h.length.getD 0) (stringContents h) := by
  have parts : Local fun bs => pieces bs.length stringDepth bs :=
    LocalWith.local (localWith_pieces stringDepth)
  unfold stringContents
  by_cases nested : h.constructed = true
  · simpa only [if_pos nested] using closes_delimited h.length parts
  · simpa only [if_neg nested] using closes_split? _

/-- Reads a string of any tag together with its header. -/
def headed : Reader (Header × Bytes) := fun bs => do
  let (h, inner) ← readHeader? bs
  (stringContents h inner).map fun (contents, rest) => ((h, contents), rest)

theorem framed_headed : Framed headed := by
  unfold headed
  refine framed_element fun h bs x rest there read => ?_
  obtain ⟨⟨contents, rest₀⟩, readContents, same⟩ := Option.map_eq_some_iff.1 read
  obtain ⟨rfl, rfl⟩ := Prod.mk.inj same
  obtain ⟨bytes, rfl, fits, again⟩ := closes_stringContents h _ _ _ there readContents
  refine ⟨bytes, rfl, fits, fun rest' => ?_⟩
  dsimp only
  rw [again rest']
  rfl

theorem headed_eq_some_iff {contents : Bytes} :
    headed bs = some ((h, contents), rest) ↔
      ∃ inner, readHeader? bs = some (h, inner) ∧ stringContents h inner = some (contents, rest) := by
  simp [headed, Option.bind_eq_some_iff]

theorem framed_string (tag : Tag) : Framed (string tag) := by
  unfold string
  exact framed_element fun h => .guard _ (closes_stringContents h)

/-! ## Skipping -/

theorem atEnd_iff : atEnd bs = true ↔ bs = [] ∨ ∃ rest, bs = 0 :: 0 :: rest := by
  unfold atEnd
  split <;> simp_all

theorem skipOpen_end (fuel opened : Nat) (rest : Bytes) :
    skipOpen (fuel + 1) opened (0 :: 0 :: rest) =
      if opened = 1 then some rest else skipOpen fuel (opened - 1) rest := by
  rw [skipOpen]

/-- How many elements are open behind a header. -/
def Header.opening (h : Header) (opened : Nat) : Nat :=
  if h.length.isNone then opened + 1 else opened

theorem skipOpen_succ {fuel opened : Nat} (goesOn : ¬ atEnd bs = true) :
    skipOpen (fuel + 1) opened bs = (readHeader? bs).bind fun found =>
      skipOpen fuel (found.1.opening opened) (found.2.drop (found.1.length.getD 0)) := by
  rw [skipOpen.eq_def]
  dsimp only
  split
  · exact absurd rfl goesOn
  · cases readHeader? bs with
    | none => rfl
    | some found =>
      obtain ⟨⟨tag, constructed, length⟩, inner⟩ := found
      cases length <;> rfl

/-- What a header tells to skip is skipped whatever follows. -/
theorem exists_skipped {bytes : Bytes} (header : readHeader? bs = some (h, inner))
    (same : inner.drop (h.length.getD 0) = bytes ++ rest) (nonempty : bytes ≠ []) :
    ∃ front, 2 ≤ front.length ∧ bs = front ++ (bytes ++ rest) ∧ ∀ rest',
      atEnd (front ++ (bytes ++ rest')) = atEnd bs ∧ ∃ inner',
        readHeader? (front ++ (bytes ++ rest')) = some (h, inner') ∧
          inner'.drop (h.length.getD 0) = bytes ++ rest' := by
  obtain ⟨there, head, two, rfl, again⟩ := readHeader?_local header
  have taken : (inner.take (h.length.getD 0)).length = h.length.getD 0 :=
    List.length_take_of_le there
  have split := List.take_append_drop (h.length.getD 0) inner
  rw [same] at split
  generalize inner.take (h.length.getD 0) = contents at taken split
  obtain rfl := split
  refine ⟨head ++ contents, by rw [List.length_append]; omega, by simp, fun rest' => ?_⟩
  have header' : readHeader? (head ++ (contents ++ (bytes ++ rest'))) =
      some (h, contents ++ (bytes ++ rest')) := by
    refine again _ (fun none => ?_) ?_
    · simp [nonempty] at none
    · rw [List.length_append]
      omega
  rw [List.append_assoc]
  refine ⟨congrArg Glance.atEnd (glance_append two header' header), _, header', ?_⟩
  exact List.drop_left' taken

/-- An end that is found does not depend on what follows it. -/
theorem skipOpen_local {fuel opened : Nat} (read : skipOpen fuel opened bs = some rest) :
    ∃ bytes, bytes ≠ [] ∧ bs = bytes ++ rest ∧ ∀ rest' fuel', (bytes ++ rest').length ≤ fuel' →
      skipOpen (fuel' + 1) opened (bytes ++ rest') = some rest' := by
  induction fuel generalizing opened bs with
  | zero => cases read
  | succ fuel ih =>
    by_cases ended : atEnd bs = true
    · obtain rfl | ⟨later, rfl⟩ := atEnd_iff.1 ended
      · cases read
      rw [skipOpen_end] at read
      split at read
      · next last =>
        obtain rfl := Option.some.inj read
        refine ⟨[0, 0], by simp, rfl, fun rest' fuel' _ => ?_⟩
        exact (skipOpen_end fuel' opened rest').trans (if_pos last)
      · next inner =>
        obtain ⟨bytes, -, rfl, again⟩ := ih read
        refine ⟨0 :: 0 :: bytes, by simp, rfl, fun rest' fuel' enough => ?_⟩
        refine (skipOpen_end fuel' opened (bytes ++ rest')).trans ?_
        rw [List.cons_append, List.cons_append, List.length_cons, List.length_cons] at enough
        obtain ⟨fuel', rfl⟩ : ∃ n, fuel' = n + 1 := ⟨fuel' - 1, by omega⟩
        rw [if_neg inner]
        exact again rest' fuel' (by omega)
    · rw [skipOpen_succ ended] at read
      obtain ⟨⟨h, inner⟩, header, later⟩ := Option.bind_eq_some_iff.1 read
      obtain ⟨bytes, nonempty, same, again⟩ := ih later
      obtain ⟨front, two, rfl, skipped⟩ := exists_skipped header same nonempty
      refine ⟨front ++ bytes, by simp [nonempty], by simp, fun rest' fuel' enough => ?_⟩
      obtain ⟨goesOn, inner', header', same'⟩ := skipped rest'
      rw [List.append_assoc, List.length_append] at enough
      obtain ⟨fuel', rfl⟩ : ∃ n, fuel' = n + 1 := ⟨fuel' - 1, by omega⟩
      rw [List.append_assoc, skipOpen_succ (goesOn ▸ ended), header', Option.bind_some, same']
      exact again rest' fuel' (by omega)

/-- Takes an element of any kind without looking at its contents. -/
def skip : Reader Unit := fun bs => do
  let (h, rest) ← readHeader? bs
  match h.length with
  | some n => some ((), rest.drop n)
  | none => (skipOpen (rest.length + 1) 1 rest).map fun rest => ((), rest)

theorem framed_skip : Framed skip := by
  unfold skip
  refine framed_element fun h bs a rest there read => ?_
  obtain ⟨tag, constructed, length⟩ := h
  cases length with
  | some n =>
    obtain ⟨-, rfl⟩ := Prod.mk.inj (Option.some.inj read)
    have taken : (bs.take n).length = n := List.length_take_of_le there
    refine ⟨bs.take n, (List.take_append_drop n bs).symm, Nat.le_of_eq taken.symm, fun rest' => ?_⟩
    exact congrArg (fun rest => some ((), rest)) (List.drop_left' taken)
  | none =>
    obtain ⟨rest₀, skipped, same⟩ := Option.map_eq_some_iff.1 read
    obtain ⟨-, rfl⟩ := Prod.mk.inj same
    obtain ⟨bytes, -, rfl, again⟩ := skipOpen_local skipped
    refine ⟨bytes, rfl, Nat.zero_le _, fun rest' => ?_⟩
    exact congrArg (Option.map fun rest => ((), rest)) (again rest' _ (Nat.le_refl _))

theorem raw_eq : raw = fun bs => (withBytes skip bs).map fun (x, rest) => (x.1, rest) := by
  funext bs
  rw [raw, withBytes, skip]
  cases readHeader? bs with
  | none => rfl
  | some read =>
    obtain ⟨⟨tag, constructed, length⟩, inner⟩ := read
    cases length with
    | some n => rfl
    | none =>
      simp only [Option.bind_eq_bind, Option.bind_some]
      cases skipOpen (inner.length + 1) 1 inner <;> rfl

theorem framed_raw : Framed raw := by
  rw [raw_eq]
  exact framed_skip.withBytes.map Prod.fst

end Ber

open Ber

/-! ## Values -/

theorem Ber.framed_integer : Framed integer := by
  refine (framed_primitive .integer).of_iff (fun a b => isInteger a = true ∧ a = b)
    fun bs b rest => ?_
  simp [integer, Option.bind_eq_some_iff]

theorem Ber.framed_boolean : Framed boolean := by
  refine (framed_primitive .boolean).of_iff (fun a b => a = [b]) fun bs b rest => ?_
  simp only [boolean, Option.bind_eq_bind, Option.bind_eq_some_iff]
  constructor
  · rintro ⟨⟨contents, rest₀⟩, read, single⟩
    split at single
    · next same =>
      obtain ⟨rfl, rfl⟩ := Prod.mk.inj (Option.some.inj single)
      obtain ⟨rfl, rfl⟩ := Prod.mk.inj same
      exact ⟨_, read, rfl⟩
    · cases single
  · rintro ⟨_, read, rfl⟩
    exact ⟨_, read, rfl⟩

theorem Oid.framed_read : Framed read := by
  refine (framed_primitive .objectId).of_iff (fun a b => ofContents? a = some b) fun bs b rest => ?_
  simp [read, Option.bind_eq_some_iff]

theorem BitString.framed_read (tag : Tag) : Framed (read tag) := by
  refine (framed_string tag).of_iff (fun a b => ofContents? a = some b) fun bs b rest => ?_
  simp [read, Option.bind_eq_some_iff]

namespace AnyValue

/-- What a value is read with, once it is seen what comes. -/
def readAt (seen : Glance) : Ber.Reader AnyValue :=
  if seen.atEnd then fun _ => none
  else match seen.header with
    | none => fun _ => none
    | some h =>
      let whole : Ber.Reader AnyValue := fun bs =>
        (raw bs).map fun (bytes, rest) => (element bytes, rest)
      if h.tag.cls ≠ .universal then whole
      else if h.tag = .sequence ∨ h.tag = .set then
        if h.constructed then whole else fun _ => none
      else if h.constructed && isAtomic h.tag then fun _ => none
      else fun bs => do
        let ((h, contents), rest) ← headed bs
        return (primitive h.tag (← contents? h.tag contents), rest)

theorem read_eq : read = fun bs => readAt (glance bs) bs := by
  funext bs
  rw [read, readAt, glance]
  dsimp only
  cases atEnd bs with
  | true => rfl
  | false =>
    cases header : readHeader? bs with
    | none => rfl
    | some found =>
      obtain ⟨h, inner⟩ := found
      simp only [Bool.false_eq_true, if_false, Option.bind_eq_bind, Option.bind_some, Option.map_some]
      split
      · rfl
      split
      · split <;> rfl
      split
      · rfl
      · simp only [headed, header, Option.bind_eq_bind, Option.bind_some]
        cases stringContents h inner <;> rfl

theorem framed_read : Framed read := by
  have whole : Framed fun bs => (raw bs).map fun (bytes, rest) => (element bytes, rest) :=
    framed_raw.map element
  rw [read_eq]
  refine framed_byGlance readAt fun seen => ?_
  unfold readAt
  split
  · exact framed_none
  split
  · exact framed_none
  dsimp only
  split
  · exact whole
  split
  · split
    · exact whole
    · exact framed_none
  split
  · exact framed_none
  refine framed_headed.of_iff
    (fun x v => ∃ contents, contents? x.1.tag x.2 = some contents ∧ primitive x.1.tag contents = v)
    fun bs v rest => ?_
  simp [Option.bind_eq_some_iff]

def readOptionalAt (seen : Glance) : Ber.Reader (Option AnyValue) :=
  if seen.atEnd then fun bs => some (none, bs)
  else fun bs => (read bs).map fun (value, rest) => (some value, rest)

theorem readOptional_eq : readOptional = fun bs => readOptionalAt (glance bs) bs := by
  funext bs
  rw [readOptional, readOptionalAt, glance]
  cases atEnd bs <;> rfl

theorem local_readOptional : Local readOptional := by
  rw [readOptional_eq]
  refine local_byGlance readOptionalAt fun seen => ?_
  unfold readOptionalAt
  split
  · exact local_pure none
  · exact (framed_read.map some).local

end AnyValue

end Transparency
