import Transparency.Proofs.Ber.Element

/-!
# What readers see

What a reader takes off the front of an input depends on little else. It may look at what follows to
tell if the input ends there or which header comes next. A reader of one element does not even do
that: only a length of several bytes has to be followed by something.
-/
namespace Transparency.Ber

/-- What is seen of an input before any of it is taken. -/
structure Glance where
  isEmpty : Bool
  atEnd : Bool
  header : Option Header

def glance (bs : Bytes) : Glance := ⟨bs.isEmpty, atEnd bs, (readHeader? bs).map (·.1)⟩

variable {α β : Type} {reader : Reader α} {bs inner rest : Bytes} {a : α} {h : Header}

/-- Whether a reader takes the same wherever the same is seen of what follows. -/
def Local (reader : Reader α) : Prop :=
  ∀ bs a rest, reader bs = some (a, rest) → ∃ bytes, bs = bytes ++ rest ∧
    ∀ rest', glance rest' = glance rest →
      reader (bytes ++ rest') = some (a, rest') ∧ glance (bytes ++ rest') = glance bs

/-- Whether a reader takes an element by its header, and the same whatever follows if anything
does. -/
def Framed (reader : Reader α) : Prop :=
  ∀ bs a rest, reader bs = some (a, rest) → ∃ bytes h, 2 ≤ bytes.length ∧ bs = bytes ++ rest ∧
    ∀ rest', (rest' = [] → rest = []) → reader (bytes ++ rest') = some (a, rest') ∧
      ∃ inner, readHeader? (bytes ++ rest') = some (h, inner)

/-- Whether what follows an element has no say in where the element ends. -/
def ReadsElement (reader : Reader α) : Prop :=
  ∀ bytes rest a, reader (bytes ++ rest) = some (a, rest) →
    ∀ rest' b left, reader (bytes ++ rest') = some (b, left) → left = rest'

/-! ## Headers -/

theorem readGroups?_local {before n : Nat} (read : readGroups? before bs = some (n, rest)) :
    ∃ bytes, bs = bytes ++ rest ∧
      ∀ rest', readGroups? before (bytes ++ rest') = some (n, rest') := by
  induction bs generalizing before with
  | nil => cases read
  | cons b bs ih =>
    rw [readGroups?] at read
    split at read
    · next last =>
      obtain ⟨rfl, rfl⟩ := Prod.mk.inj (Option.some.inj read)
      exact ⟨[b], rfl, fun rest' => by simp [readGroups?, last]⟩
    · next followed =>
      split at read
      · next small =>
        obtain ⟨bytes, rfl, again⟩ := ih read
        refine ⟨b :: bytes, rfl, fun rest' => ?_⟩
        rw [List.cons_append, readGroups?, if_neg followed, if_pos small, again]
      · cases read

theorem readIdentifier?_local {id : Tag × Bool} (read : readIdentifier? bs = some (id, rest)) :
    ∃ bytes, bytes ≠ [] ∧ bs = bytes ++ rest ∧
      ∀ rest', readIdentifier? (bytes ++ rest') = some (id, rest') := by
  cases bs with
  | nil => cases read
  | cons b bs =>
    by_cases long : b &&& 31 = 31
    · simp only [readIdentifier?, if_pos long] at read
      obtain ⟨⟨n, rest₁⟩, groups, same⟩ := Option.map_eq_some_iff.1 read
      obtain ⟨rfl, rfl⟩ := Prod.mk.inj same
      obtain ⟨bytes, rfl, again⟩ := readGroups?_local groups
      refine ⟨b :: bytes, by simp, rfl, fun rest' => ?_⟩
      simp [readIdentifier?, long, again]
    · simp only [readIdentifier?, if_neg long] at read
      obtain ⟨rfl, rfl⟩ := Prod.mk.inj (Option.some.inj read)
      refine ⟨[b], by simp, rfl, fun rest' => ?_⟩
      simp [readIdentifier?, long]

theorem readLength?_local {n : Option Nat} (read : readLength? bs = some (n, rest)) :
    ∃ bytes, bytes ≠ [] ∧ bs = bytes ++ rest ∧
      ∀ rest', (rest' = [] → rest = []) → readLength? (bytes ++ rest') = some (n, rest') := by
  cases bs with
  | nil => cases read
  | cons b bs =>
    rw [readLength?] at read
    split at read
    · next opened =>
      obtain ⟨rfl, rfl⟩ := Prod.mk.inj (Option.some.inj read)
      exact ⟨[b], by simp, rfl, fun rest' _ => by simp [readLength?, opened]⟩
    split at read
    · next closed short =>
      obtain ⟨rfl, rfl⟩ := Prod.mk.inj (Option.some.inj read)
      exact ⟨[b], by simp, rfl, fun rest' _ => by simp [readLength?, closed, short]⟩
    next closed long =>
    dsimp only at read
    split at read
    · next followed =>
      split at read
      · next small =>
        obtain ⟨rfl, rfl⟩ := Prod.mk.inj (Option.some.inj read)
        generalize number : (b &&& 0x7f).toNat = count at followed small ⊢
        have enough := Bytes.hasAtLeast_iff.1 followed
        have counted : (bs.take count).length = count := List.length_take_of_le (by omega)
        refine ⟨b :: bs.take count, by simp, by simp, fun rest' goesOn => ?_⟩
        -- Something has to follow the digits, but not more than one byte of it is looked for.
        have followed' : Bytes.hasAtLeast (count + 1) (bs.take count ++ rest') = true := by
          have some : (bs.drop count).length ≠ 0 := by rw [List.length_drop]; omega
          have some' := List.length_pos_iff.2 (mt goesOn (mt List.length_eq_zero_iff.2 some))
          rw [Bytes.hasAtLeast_iff, List.length_append]
          omega
        rw [List.cons_append, readLength?, if_neg closed, if_neg long, number]
        dsimp only
        rw [if_pos followed', List.take_left' counted, List.drop_left' counted, if_pos small]
      · cases read
    · cases read

/-- The bytes of a header are the same header before all contents that are long enough. -/
theorem readHeader?_local (read : readHeader? bs = some (h, inner)) :
    h.length.getD 0 ≤ inner.length ∧ ∃ bytes, 2 ≤ bytes.length ∧ bs = bytes ++ inner ∧
      ∀ inner', (inner' = [] → inner = []) → h.length.getD 0 ≤ inner'.length →
        readHeader? (bytes ++ inner') = some (h, inner') := by
  obtain ⟨⟨h', inner'⟩, preamble, read⟩ := Option.bind_eq_some_iff.1 read
  obtain ⟨⟨⟨tag, constructed⟩, bs₁⟩, identifier, preamble⟩ := Option.bind_eq_some_iff.1 preamble
  obtain ⟨⟨length, bs₂⟩, readLength, preamble⟩ := Option.bind_eq_some_iff.1 preamble
  dsimp only at read preamble
  split at preamble
  · cases preamble
  next opened =>
  obtain ⟨rfl, rfl⟩ := Prod.mk.inj (Option.some.inj preamble)
  split at read
  · next fits =>
    obtain ⟨rfl, rfl⟩ := Prod.mk.inj (Option.some.inj read)
    obtain ⟨first, firstSome, rfl, identifierAgain⟩ := readIdentifier?_local identifier
    obtain ⟨second, secondSome, rfl, lengthAgain⟩ := readLength?_local readLength
    have first' := List.length_pos_iff.2 firstSome
    have second' := List.length_pos_iff.2 secondSome
    refine ⟨Bytes.hasAtLeast_iff.1 fits, first ++ second, ?_, by simp, fun inner' goesOn there => ?_⟩
    · rw [List.length_append]
      omega
    · have fits' := Bytes.hasAtLeast_iff.2 there
      rw [List.append_assoc, readHeader?, readPreamble?, identifierAgain]
      simp only [Option.bind_eq_bind, Option.bind_some, lengthAgain inner' goesOn, if_neg opened,
        if_pos fits']
  · cases read

/-- A header does not change if its contents are followed by more. -/
theorem readHeader?_append (read : readHeader? bs = some (h, inner)) (more : Bytes) :
    readHeader? (bs ++ more) = some (h, inner ++ more) := by
  obtain ⟨there, bytes, -, rfl, again⟩ := readHeader?_local read
  rw [List.append_assoc]
  refine again _ (fun none => (List.append_eq_nil_iff.1 none).1) ?_
  rw [List.length_append]
  omega

theorem atEnd_cons_cons (x y : UInt8) (bs : Bytes) :
    atEnd (x :: y :: bs) = decide (x = 0 ∧ y = 0) := by
  unfold atEnd
  split <;> simp_all

theorem glance_append {bytes : Bytes} {u v : Bytes} (two : 2 ≤ bytes.length)
    (read : readHeader? (bytes ++ u) = some (h, inner))
    (read' : readHeader? (bytes ++ v) = some (h, rest)) :
    glance (bytes ++ u) = glance (bytes ++ v) := by
  rw [glance, glance, read, read']
  match bytes with
  | x :: y :: bytes => simp [atEnd_cons_cons]

/-! ## Elements -/

/-- Whether a reader takes at least `n` bytes if there are so many, and takes the same whatever
follows. -/
def Closes (n : Nat) (reader : Reader α) : Prop :=
  ∀ bs a rest, n ≤ bs.length → reader bs = some (a, rest) → ∃ bytes, bs = bytes ++ rest ∧
    n ≤ bytes.length ∧ ∀ rest', reader (bytes ++ rest') = some (a, rest')

theorem closes_none (n : Nat) : Closes n (fun _ => none : Reader α) :=
  fun _ _ _ _ read => nomatch read

theorem Closes.guard {n : Nat} (p : Prop) [Decidable p] (closes : Closes n reader) :
    Closes n fun bs => if p then reader bs else none := by
  by_cases holds : p
  · simpa only [if_pos holds] using closes
  · simpa only [if_neg holds] using closes_none n

theorem closes_split? (n : Nat) : Closes n (Bytes.split? n) := by
  intro bs head rest _ read
  obtain ⟨rfl, length⟩ := Bytes.split?_eq_some_iff.1 read
  exact ⟨head, rfl, Nat.le_of_eq length.symm, fun rest' => Bytes.split?_append length rest'⟩

theorem framed_element {contents : Header × Bytes → Option (α × Bytes)}
    (closes : ∀ h, Closes (h.length.getD 0) fun bs => contents (h, bs)) :
    Framed fun bs => readHeader? bs >>= contents := by
  intro bs a rest read
  obtain ⟨⟨h, inner⟩, header, readContents⟩ := Option.bind_eq_some_iff.1 read
  obtain ⟨there, first, two, rfl, headerAgain⟩ := readHeader?_local header
  obtain ⟨second, rfl, fits, again⟩ := closes h inner a rest there readContents
  have two' : 2 ≤ (first ++ second).length := by
    rw [List.length_append]
    omega
  refine ⟨first ++ second, h, two', by simp, fun rest' goesOn => ?_⟩
  have header' : readHeader? (first ++ second ++ rest') = some (h, second ++ rest') := by
    rw [List.append_assoc]
    refine headerAgain _ (fun ends => ?_) ?_
    · rw [List.append_eq_nil_iff] at ends ⊢
      exact ⟨ends.1, goesOn ends.2⟩
    · rw [List.length_append]
      omega
  refine ⟨?_, _, header'⟩
  beta_reduce
  rw [header']
  exact again rest'

/-- An element looks the same from its front, whatever follows it. -/
theorem Framed.frame (framed : Framed reader) (read : reader bs = some (a, rest)) :
    ∃ bytes, bytes ≠ [] ∧ bs = bytes ++ rest ∧ ∀ rest', (rest' = [] → rest = []) →
      reader (bytes ++ rest') = some (a, rest') ∧ glance (bytes ++ rest') = glance bs := by
  obtain ⟨bytes, h, two, rfl, again⟩ := framed bs a rest read
  refine ⟨bytes, fun none => by simp [none] at two, rfl, fun rest' goesOn => ?_⟩
  obtain ⟨-, inner, header⟩ := again rest id
  obtain ⟨read', inner', header'⟩ := again rest' goesOn
  exact ⟨read', glance_append two header' header⟩

/-- An end of the input is no exception: were less taken there, it would be taken elsewhere too. -/
theorem Framed.readsElement (framed : Framed reader) : ReadsElement reader := by
  intro bytes rest a read rest' b left read'
  obtain ⟨taken, -, same, again⟩ := framed.frame read
  obtain rfl : bytes = taken := List.append_cancel_right same
  by_cases goesOn : rest' = [] → rest = []
  · rw [(again rest' goesOn).1] at read'
    exact (Prod.mk.inj (Option.some.inj read')).2.symm
  · obtain ⟨rfl, nonempty⟩ := Classical.not_imp.1 goesOn
    obtain ⟨taken', -, same', again'⟩ := framed.frame read'
    rw [List.append_nil] at same'
    have longer := (again' (left ++ rest) fun none => (List.append_eq_nil_iff.1 none).1).1
    rw [← List.append_assoc, ← same', read] at longer
    exact List.self_eq_append_left.1 (Prod.mk.inj (Option.some.inj longer)).2

theorem ReadsElement.of_reads {reader' : Reader β} (reads : ReadsElement reader)
    (sub : ∀ bs b rest, reader' bs = some (b, rest) → ∃ a, reader bs = some (a, rest)) :
    ReadsElement reader' := by
  intro bytes rest b read rest' b' left read'
  obtain ⟨a, found⟩ := sub _ _ _ read
  obtain ⟨a', found'⟩ := sub _ _ _ read'
  exact reads bytes rest a found rest' a' left found'

/-! ## One reader after another -/

theorem Framed.local (framed : Framed reader) : Local reader := by
  intro bs a rest read
  obtain ⟨bytes, -, same, again⟩ := framed.frame read
  refine ⟨bytes, same, fun rest' seen => again rest' fun ends => ?_⟩
  have ended : rest'.isEmpty = rest.isEmpty := congrArg Glance.isEmpty seen
  rw [ends] at ended
  exact List.isEmpty_iff.1 ended.symm

theorem local_pure (a : α) : Local fun bs => some (a, bs) := by
  intro bs _ _ read
  obtain ⟨rfl, rfl⟩ := Prod.mk.inj (Option.some.inj read)
  exact ⟨[], rfl, fun rest' seen => ⟨rfl, seen⟩⟩

theorem local_none : Local (fun _ => none : Reader α) := fun _ _ _ read => nomatch read

theorem framed_none : Framed (fun _ => none : Reader α) := fun _ _ _ read => nomatch read

theorem Local.bind {next : α × Bytes → Option (β × Bytes)} (first : Local reader)
    (later : ∀ a, Local fun bs => next (a, bs)) : Local fun bs => reader bs >>= next := by
  intro bs b rest read
  obtain ⟨⟨a, middle⟩, readFirst, readNext⟩ := Option.bind_eq_some_iff.1 read
  obtain ⟨bytes, rfl, again⟩ := first _ _ _ readFirst
  obtain ⟨bytes', rfl, againNext⟩ := later a _ _ _ readNext
  refine ⟨bytes ++ bytes', by simp, fun rest' seen => ?_⟩
  obtain ⟨next', seen'⟩ := againNext rest' seen
  obtain ⟨first', seen''⟩ := again _ seen'
  rw [List.append_assoc]
  refine ⟨?_, seen''⟩
  beta_reduce
  rw [first']
  exact next'

theorem local_byGlance (select : Glance → Reader α) (each : ∀ g, Local (select g)) :
    Local fun bs => select (glance bs) bs := by
  intro bs a rest read
  obtain ⟨bytes, rfl, again⟩ := each _ _ _ _ read
  refine ⟨bytes, rfl, fun rest' seen => ?_⟩
  obtain ⟨read', seen'⟩ := again rest' seen
  refine ⟨?_, seen'⟩
  beta_reduce
  rw [seen', read']

theorem framed_byGlance (select : Glance → Reader α) (each : ∀ g, Framed (select g)) :
    Framed fun bs => select (glance bs) bs := by
  intro bs a rest read
  obtain ⟨bytes, h, two, rfl, again⟩ := each _ _ _ _ read
  refine ⟨bytes, h, two, rfl, fun rest' goesOn => ?_⟩
  obtain ⟨-, inner, header⟩ := again rest id
  obtain ⟨read', inner', header'⟩ := again rest' goesOn
  refine ⟨?_, inner', header'⟩
  beta_reduce
  rw [glance_append two header' header, read']

/-- A reader that makes something else of what another one takes. -/
theorem Framed.of_iff {reader' : Reader β} (framed : Framed reader) (made : α → β → Prop)
    (reads_iff : ∀ bs b rest, reader' bs = some (b, rest) ↔
      ∃ a, reader bs = some (a, rest) ∧ made a b) : Framed reader' := by
  intro bs b rest read
  obtain ⟨a, readFirst, makes⟩ := (reads_iff bs b rest).1 read
  obtain ⟨bytes, h, two, rfl, again⟩ := framed _ _ _ readFirst
  refine ⟨bytes, h, two, rfl, fun rest' goesOn => ?_⟩
  obtain ⟨read', header⟩ := again rest' goesOn
  exact ⟨(reads_iff _ b rest').2 ⟨a, read', makes⟩, header⟩

theorem Framed.map (framed : Framed reader) (f : α → β) :
    Framed fun bs => (reader bs).map fun (a, rest) => (f a, rest) := by
  refine framed.of_iff (fun a b => f a = b) fun bs b rest => ?_
  rw [Option.map_eq_some_iff]
  constructor
  · rintro ⟨⟨a, rest⟩, read, same⟩
    obtain ⟨made, rfl⟩ := Prod.mk.inj same
    exact ⟨a, read, made⟩
  · rintro ⟨a, read, rfl⟩
    exact ⟨(a, rest), read, rfl⟩

/-- The bytes of a value are read alike whatever follows. -/
theorem Framed.of_withBytes {bytes : Bytes} (framed : Framed reader)
    (read : withBytes reader bs = some ((bytes, a), rest)) :
    bs = bytes ++ rest ∧ ∃ h, 2 ≤ bytes.length ∧ ∀ rest', (rest' = [] → rest = []) →
      reader (bytes ++ rest') = some (a, rest') ∧
        ∃ inner, readHeader? (bytes ++ rest') = some (h, inner) := by
  obtain ⟨⟨a₀, rest₀⟩, readFirst, same⟩ := Option.bind_eq_some_iff.1 read
  obtain ⟨bytes₀, h, two, rfl, again⟩ := framed _ _ _ readFirst
  simp only [pure, Option.some.injEq, Prod.mk.injEq] at same
  obtain ⟨⟨rfl, rfl⟩, rfl⟩ := same
  have taken : (bytes₀ ++ rest₀).take ((bytes₀ ++ rest₀).length - rest₀.length) = bytes₀ := by
    simp
  rw [taken]
  exact ⟨rfl, h, two, again⟩

theorem Framed.withBytes (framed : Framed reader) : Framed (withBytes reader) := by
  intro bs x rest read
  obtain ⟨bytes, a⟩ := x
  obtain ⟨rfl, h, two, again⟩ := framed.of_withBytes read
  refine ⟨bytes, h, two, rfl, fun rest' goesOn => ?_⟩
  obtain ⟨read', header⟩ := again rest' goesOn
  refine ⟨?_, header⟩
  simp [Ber.withBytes, read']

/-! ## Contents -/

theorem delimited_some_iff {n : Nat} :
    delimited (some n) reader bs = some (a, rest) ↔
      ∃ inner, inner.length = n ∧ bs = inner ++ rest ∧ reader inner = some (a, []) := by
  constructor
  · intro read
    obtain ⟨⟨inner, rest₀⟩, split, whole⟩ := Option.bind_eq_some_iff.1 read
    obtain ⟨⟨a₀, left⟩, contents, ended⟩ := Option.bind_eq_some_iff.1 whole
    obtain ⟨rfl, length⟩ := Bytes.split?_eq_some_iff.1 split
    cases left with
    | cons => cases ended
    | nil =>
      obtain ⟨rfl, rfl⟩ := Prod.mk.inj (Option.some.inj ended)
      exact ⟨inner, length, rfl, contents⟩
  · rintro ⟨inner, length, rfl, contents⟩
    simp [delimited, Bytes.split?_append length, contents]

theorem delimited_none_iff :
    delimited none reader bs = some (a, rest) ↔ reader bs = some (a, 0 :: 0 :: rest) := by
  constructor
  · intro read
    obtain ⟨⟨a₀, left⟩, contents, ended⟩ := Option.bind_eq_some_iff.1 read
    split at ended
    · next ends =>
      obtain ⟨rfl, rfl⟩ := Prod.mk.inj (Option.some.inj ended)
      obtain ⟨rfl, rfl⟩ := Prod.mk.inj ends
      exact contents
    · cases ended
  · intro contents
    simp [delimited, contents]

/-- A reader that has fuel for all of its input is local, and takes the same with more or less fuel
as long as it is enough. -/
def LocalWith (fuel : Nat) (readers : Nat → Reader α) : Prop :=
  ∀ bs a rest, bs.length ≤ fuel → readers fuel bs = some (a, rest) → ∃ bytes, bs = bytes ++ rest ∧
    ∀ rest' fuel', glance rest' = glance rest → (bytes ++ rest').length ≤ fuel' →
      readers fuel' (bytes ++ rest') = some (a, rest') ∧ glance (bytes ++ rest') = glance bs

theorem LocalWith.local {readers : Nat → Reader α} (all : ∀ fuel, LocalWith fuel readers) :
    Local fun bs => readers bs.length bs := by
  intro bs a rest read
  obtain ⟨bytes, same, again⟩ := all _ _ _ _ (Nat.le_refl _) read
  exact ⟨bytes, same, fun rest' seen => again rest' _ seen (Nat.le_refl _)⟩

theorem Local.localWith (loc : Local reader) (fuel : Nat) : LocalWith fuel fun _ => reader := by
  intro bs a rest _ read
  obtain ⟨bytes, same, again⟩ := loc _ _ _ read
  exact ⟨bytes, same, fun rest' _ seen _ => again rest' seen⟩

/-- Two zero bytes end an element of open length, whatever follows them. -/
theorem LocalWith.delimited {fuel : Nat} {readers : Nat → Reader α} {length : Option Nat}
    (loc : LocalWith fuel readers) (enough : bs.length ≤ fuel)
    (read : delimited length (readers fuel) bs = some (a, rest)) :
    ∃ bytes, bs = bytes ++ rest ∧ length.getD 0 ≤ bytes.length ∧
      ∀ rest' fuel', (bytes ++ rest').length ≤ fuel' →
        Ber.delimited length (readers fuel') (bytes ++ rest') = some (a, rest') := by
  cases length with
  | some n =>
    obtain ⟨inner, length, rfl, contents⟩ := delimited_some_iff.1 read
    rw [List.length_append] at enough
    obtain ⟨bytes, rfl, again⟩ := loc _ _ _ (Nat.le_of_add_right_le enough) contents
    refine ⟨bytes ++ [], rfl, Nat.le_of_eq length.symm, fun rest' fuel' enough' => ?_⟩
    rw [List.length_append] at enough'
    have contents' := (again [] fuel' rfl (Nat.le_of_add_right_le enough')).1
    exact delimited_some_iff.2 ⟨_, length, rfl, contents'⟩
  | none =>
    obtain ⟨bytes, rfl, again⟩ := loc _ _ _ enough (delimited_none_iff.1 read)
    refine ⟨bytes ++ [0, 0], by simp, Nat.zero_le _, fun rest' fuel' enough' => ?_⟩
    rw [List.append_assoc] at enough' ⊢
    exact delimited_none_iff.2 (again (0 :: 0 :: rest') fuel' rfl enough').1

theorem closes_delimited (length : Option Nat) (loc : Local reader) :
    Closes (length.getD 0) (delimited length reader) := by
  intro bs a rest _ read
  obtain ⟨bytes, same, fits, again⟩ :=
    (loc.localWith bs.length).delimited (Nat.le_refl _) read
  exact ⟨bytes, same, fits, fun rest' => again rest' _ (Nat.le_refl _)⟩

theorem framed_constructed (tag : Tag) (loc : Local reader) :
    Framed (constructed tag reader) := by
  unfold constructed
  exact framed_element fun h => .guard _ (closes_delimited h.length loc)

/-- What is read of an element is read of its contents. -/
theorem exists_contents {tag : Tag} (read : constructed tag reader bs = some (a, rest)) :
    ∃ inner left, reader inner = some (a, left) := by
  obtain ⟨⟨⟨tag', constructed, length⟩, inner⟩, -, found⟩ := Option.bind_eq_some_iff.1 read
  dsimp only at found
  split at found
  · cases length with
    | some n =>
      obtain ⟨contents, -, -, readContents⟩ := delimited_some_iff.1 found
      exact ⟨contents, [], readContents⟩
    | none => exact ⟨inner, _, delimited_none_iff.1 found⟩
  · cases found

/-- The contents of an element that was written are known. -/
theorem contents_of_element {tag : Tag} {contents : Bytes} (readable : tag.number < Tag.limit)
    (short : (Der.element tag true contents).length < lengthLimit)
    (read : constructed tag reader (Der.element tag true contents) = some (a, rest)) :
    reader contents = some (a, []) := by
  have header := readHeader?_element readable short []
  rw [List.append_nil, List.append_nil] at header
  rw [constructed, header] at read
  obtain ⟨inner, length, same, found⟩ := delimited_some_iff.1 (by simpa using read)
  obtain ⟨rfl, -⟩ := List.append_inj (same.symm.trans (List.append_nil contents).symm) length
  exact found

theorem framed_sequence (loc : Local reader) : Framed (sequence reader) :=
  framed_constructed .sequence loc

theorem framed_primitive (tag : Tag) : Framed (primitive tag) := by
  unfold primitive
  exact framed_element fun h => .guard _ (closes_split? _)

/-! ## Lists -/

theorem glance_eq_nil (seen : glance rest = glance []) : rest = [] := by
  have ended : rest.isEmpty = true := congrArg Glance.isEmpty seen
  exact List.isEmpty_iff.1 ended

theorem localWith_many {item : Reader α} (framed : Framed item) (fuel : Nat) :
    LocalWith fuel (many item) := by
  induction fuel with
  | zero =>
    intro bs as rest enough read
    obtain rfl := List.length_eq_zero_iff.1 (Nat.le_zero.1 enough)
    obtain ⟨rfl, rfl⟩ := Prod.mk.inj (Option.some.inj read)
    refine ⟨[], rfl, fun rest' fuel' seen _ => ⟨?_, seen⟩⟩
    obtain rfl := glance_eq_nil seen
    cases fuel' <;> rfl
  | succ fuel ih =>
    intro bs as rest enough read
    rw [many] at read
    split at read
    · next ended =>
      obtain ⟨rfl, rfl⟩ := Prod.mk.inj (Option.some.inj read)
      refine ⟨[], rfl, fun rest' fuel' seen _ => ⟨?_, seen⟩⟩
      have ended' : atEnd rest' = true := (congrArg Glance.atEnd seen).trans ended
      cases fuel' with
      | zero => rfl
      | succ fuel' => exact if_pos ended'
    · next goesOn =>
      obtain ⟨⟨a, middle⟩, readItem, later⟩ := Option.bind_eq_some_iff.1 read
      obtain ⟨⟨as', rest₀⟩, readMore, same⟩ := Option.bind_eq_some_iff.1 later
      obtain ⟨rfl, rfl⟩ := Prod.mk.inj (Option.some.inj same)
      obtain ⟨bytes, nonempty, rfl, again⟩ := framed.frame readItem
      have shorter := List.length_pos_iff.2 nonempty
      rw [List.length_append] at enough
      obtain ⟨bytes', rfl, againMore⟩ := ih _ _ _ (by omega) readMore
      refine ⟨bytes ++ bytes', by simp, fun rest' fuel' seen enough' => ?_⟩
      rw [List.append_assoc] at enough' ⊢
      rw [List.length_append] at enough'
      obtain ⟨fuel', rfl⟩ : ∃ n, fuel' = n + 1 := ⟨fuel' - 1, by omega⟩
      -- What follows an item looks the same, so the item is read again and does not end the list.
      obtain ⟨more', seen'⟩ := againMore rest' fuel' seen (by omega)
      obtain ⟨item', seen''⟩ := again (bytes' ++ rest') fun ends => by
        rw [ends] at seen'
        exact glance_eq_nil seen'.symm
      have goesOn' : ¬ atEnd (bytes ++ (bytes' ++ rest')) = true := by
        rw [show atEnd (bytes ++ (bytes' ++ rest')) = _ from congrArg Glance.atEnd seen'']
        exact goesOn
      refine ⟨?_, seen''⟩
      rw [many, if_neg goesOn', item']
      simp only [Option.bind_eq_bind, Option.bind_some, more']
      rfl

theorem framed_listOf {item : Reader α} (tag : Tag) (framed : Framed item) :
    Framed (listOf tag item) := by
  unfold listOf
  have items := LocalWith.local (localWith_many framed)
  exact framed_element fun h => .guard _ (closes_delimited h.length items)

/-- What an optional field is read with, once it is seen what follows. -/
def optionalAt (tag : Tag) (reader : Reader α) (seen : Glance) : Reader (Option α) :=
  if seen.isEmpty then fun bs => some (none, bs)
  else match seen.header with
    | none => fun _ => none
    | some h =>
      if h.tag = tag then fun bs => (reader bs).map fun (a, rest) => (some a, rest)
      else fun bs => some (none, bs)

theorem optional_eq (tag : Tag) (reader : Reader α) :
    optional tag reader = fun bs => optionalAt tag reader (glance bs) bs := by
  funext bs
  rw [optional, optionalAt, glance]
  cases bs.isEmpty with
  | true => rfl
  | false =>
    cases readHeader? bs with
    | none => rfl
    | some read =>
      by_cases present : read.1.tag = tag
      · simp [present]
      · simp [present]

theorem local_optional (tag : Tag) (framed : Framed reader) : Local (optional tag reader) := by
  rw [optional_eq]
  refine local_byGlance (optionalAt tag reader) fun seen => ?_
  unfold optionalAt
  split
  · exact local_pure none
  split
  · exact local_none
  split
  · exact (framed.map some).local
  · exact local_pure none

end Transparency.Ber
