/-
  Annealing.Proofs.Forms
  ──────────────────────
  **THE FORMS OF A TUNING IN A DOCUMENT.**

  A reader that walks the members of an object in order, with a slot for each
  field, accepts the same objects as a rule that knows no order: under the keys of
  budget, scale and schedule stands one value each, under that of the seed one or
  none, and each value is of the form that its field takes.  What stands under
  other keys is of no account as long as it is whole.  An array has the four
  values and nothing else.

    • `IsScalar`, `IsSchedule`, `IsSeed` — the forms of single values,
    • `readMembers_eq_ok_iff` — what members do to the slots, by induction on the
      members,
    • `ofDocument_object_iff`, `ofDocument_array_iff` — the two forms of a tuning,
    • `document_forms` — all that is read, and what it depends on.
-/
import Annealing.Proofs.RoundTrip

namespace Annealing

/-! ## §1. The forms of single values -/

section
variable {α : Type}

namespace Document

/-- The document is a number in range, and this is the scalar that it stands for. -/
inductive IsScalar [NumeralCode α] : Document → α → Prop where
  /-- A numeral that the notation has a scalar for. -/
  | number {n : Numeral} {x : α} (inRange : NumeralCode.decode? n = some x) :
      IsScalar (.number n) x

/-- The document is a schedule: the name of a built-in one, or an object that has this name for
its only key, with the value `null`. -/
inductive IsSchedule : Document → Schedule α → Prop where
  /-- The name. -/
  | named {s : Schedule α} {name : String} (hasName : s.name? = some name) :
      IsSchedule (.text (some name)) s
  /-- The name as a key. -/
  | keyed {s : Schedule α} {name : String} (hasName : s.name? = some name) :
      IsSchedule (.object [(some name, .null)] .closed) s

/-- The document is a seed: `null` for none, or a number of digits alone, without a sign, that
fits a word. -/
inductive IsSeed : Document → Option UInt64 → Prop where
  /-- No seed. -/
  | absent : IsSeed .null none
  /-- A seed. -/
  | word (n : UInt64) (exponent : Int) :
      IsSeed (.number { negative := false, coefficient := n.toNat, exponent, integral := true })
        (some n)

end Document

theorem Schedule.name?_of_ofName? {s : Schedule α} {name : String} (h : ofName? name = some s) :
    s.name? = some name := by
  unfold ofName? at h
  split at h
  next hname =>
    obtain rfl := Option.some.inj h
    exact congrArg some hname.symm
  next =>
    split at h
    next hname =>
      obtain rfl := Option.some.inj h
      exact congrArg some hname.symm
    next => cases h

/-- A numeral of a whole number that fits a word and is not negative has no sign. -/
theorem Numeral.eq_of_word? {n : Numeral} {i : Int} (h : n.word? = some i) (hi : 0 ≤ i) :
    n = ⟨false, i.toNat, n.exponent, true⟩ ∧ i.toNat < UInt64.size := by
  obtain ⟨hint, hrange⟩ := Option.filter_eq_some_iff.mp h
  have hlt : i < 0x10000000000000000 :=
    of_decide_eq_true (Bool.and_eq_true _ _ ▸ hrange).2
  obtain ⟨negative, coefficient, exponent, integral⟩ := n
  unfold toInt? at hint
  cases integral with
  | false => cases hint
  | true =>
      cases negative with
      | true =>
          -- with a sign it is either no whole number or below zero
          by_cases hzero : coefficient = 0
          · simp [hzero] at hint
          · simp only [Bool.not_true, Bool.false_eq_true, if_false, if_true, hzero] at hint
            have hneg := Option.some.inj hint
            omega
      | false =>
          obtain rfl : (coefficient : Int) = i := Option.some.inj hint
          rw [Int.toNat_natCast]
          refine ⟨rfl, ?_⟩
          show coefficient < 18446744073709551616
          omega

namespace Document

theorem readScheduleName_eq_ok_iff {name : Option String} {s : Schedule α} :
    readScheduleName name = .ok s ↔ ∃ n, name = some n ∧ s.name? = some n := by
  constructor
  · intro h
    cases name with
    | none => cases h
    | some n =>
        refine ⟨n, rfl, Schedule.name?_of_ofName? ?_⟩
        unfold readScheduleName at h
        cases hn : (Schedule.ofName? n : Option (Schedule α)) with
        | none =>
            simp only [hn] at h
            cases h
        | some s' =>
            simp only [hn] at h
            exact congrArg some (Except.ok.inj h)
  · rintro ⟨n, rfl, hs⟩
    exact readScheduleName_of_name? hs

variable [NumeralCode α]

theorem readScalar_eq_ok_iff {d : Document} {x : α} : d.readScalar = .ok x ↔ d.IsScalar x := by
  constructor
  · intro h
    unfold readScalar at h
    split at h
    next n =>
      split at h
      next y hy =>
        obtain rfl := Except.ok.inj h
        exact .number hy
      next => cases h
    next => cases h
  · rintro ⟨inRange⟩
    unfold readScalar
    simp only [inRange]

theorem readNothing_eq_ok_iff {d : Document} :
    (d.readNothing : Except (ReadFault α) Unit) = .ok () ↔ d = .null := by
  constructor
  · intro h
    unfold readNothing at h
    split at h
    next => rfl
    next => cases h
  · rintro rfl
    rfl

theorem readSchedule_eq_ok_iff {d : Document} {s : Schedule α} :
    d.readSchedule = .ok s ↔ d.IsSchedule s := by
  constructor
  · intro h
    unfold readSchedule at h
    split at h
    next name =>
      obtain ⟨n, rfl, hs⟩ := readScheduleName_eq_ok_iff.mp h
      exact .named hs
    next name value rest ending =>
      obtain ⟨s', hname, h⟩ := exists_of_bind_eq_ok h
      obtain ⟨_, hvalue, h⟩ := exists_of_bind_eq_ok h
      split at h
      next hend =>
        obtain rfl := Except.ok.inj h
        obtain ⟨n, rfl, hs⟩ := readScheduleName_eq_ok_iff.mp hname
        obtain rfl := readNothing_eq_ok_iff.mp hvalue
        obtain ⟨hrest, hending⟩ := Bool.and_eq_true_iff.mp hend
        obtain rfl := List.isEmpty_iff.mp hrest
        cases ending with
        | closed => exact .keyed hs
        | broken => cases hending
      next => cases h
    next => cases h
  · intro h
    cases h with
    | named hs => exact readScheduleName_of_name? hs
    | keyed hs =>
        simp only [readSchedule, readScheduleName_of_name? hs]
        rfl

theorem readSeed_eq_ok_iff {d : Document} {seed : Option UInt64} :
    (d.readSeed : Except (ReadFault α) (Option UInt64)) = .ok seed ↔ d.IsSeed seed := by
  constructor
  · intro h
    unfold readSeed at h
    split at h
    next =>
      obtain rfl := Except.ok.inj h
      exact .absent
    next n =>
      split at h
      next i hi =>
        split at h
        next => cases h
        next hpos =>
          obtain rfl := Except.ok.inj h
          obtain ⟨hn, hlt⟩ := Numeral.eq_of_word? hi (not_lt.mp hpos)
          rw [hn]
          have hword : i.toNat.toUInt64.toNat = i.toNat := UInt64.toNat_ofNat_of_lt' hlt
          have hseed := IsSeed.word i.toNat.toUInt64 n.exponent
          rwa [hword] at hseed
      next => cases h
    next => cases h
  · intro h
    cases h with
    | absent => rfl
    | word n exponent =>
        have hword : (n.toNat : Int).toNat.toUInt64 = n := by
          rw [Int.toNat_natCast, Nat.toUInt64, UInt64.ofNat_toNat]
        have hn : (⟨false, n.toNat, exponent, true⟩ : Numeral).word? = some (n.toNat : Int) :=
          word?_ofNat n
        rw [readSeed_number hn (Int.natCast_nonneg _), hword]

/-! ### Values of these forms are whole -/

omit [NumeralCode α] in
theorem IsSchedule.isWhole {d : Document} {s : Schedule α} (h : d.IsSchedule s) :
    d.isWhole = true := by
  cases h <;> rfl

theorem IsScalar.isWhole {d : Document} {x : α} (h : d.IsScalar x) : d.isWhole = true := by
  cases h
  rfl

omit [NumeralCode α] in
theorem IsSeed.isWhole {d : Document} {seed : Option UInt64} (h : d.IsSeed seed) :
    d.isWhole = true := by
  cases h <;> rfl

end Document

end

/-! ## §2. Slots -/

/-- **What values do to the slot of a field.**  Without a value it stays; a value fills it if it
was empty, and a second one is not accepted. -/
inductive Fills {β : Type} (form : Document → β → Prop) :
    Option β → List Document → Option β → Prop where
  /-- No value. -/
  | stays (slot : Option β) : Fills form slot [] slot
  /-- One value. -/
  | filled {d : Document} {x : β} (hasForm : form d x) : Fills form none [d] (some x)

namespace Fills

variable {β : Type} {form : Document → β → Prop} {slot slot' : Option β} {d : Document}
  {ds : List Document}

theorem nil_iff : Fills form slot [] slot' ↔ slot' = slot := by
  constructor
  · rintro ⟨⟩
    rfl
  · rintro rfl
    exact .stays _

theorem cons_iff :
    Fills form slot (d :: ds) slot' ↔ slot = none ∧ ∃ x, form d x ∧ Fills form (some x) ds slot' := by
  constructor
  · rintro ⟨⟩
    exact ⟨rfl, _, ‹_›, .stays _⟩
  · rintro ⟨rfl, x, hx, hrest⟩
    cases hrest with
    | stays => exact .filled hx

/-- An empty slot is filled by one value. -/
theorem some_iff {x : β} : Fills form none ds (some x) ↔ ∃ d, ds = [d] ∧ form d x := by
  constructor
  · rintro ⟨⟩
    exact ⟨_, rfl, ‹_›⟩
  · rintro ⟨d, rfl, hd⟩
    exact .filled hd

theorem none_iff : Fills form none ds none ↔ ds = [] := by
  constructor
  · rintro ⟨⟩
    rfl
  · rintro rfl
    exact .stays _

end Fills

/-! ## §3. Members in order -/

/-- The values that stand under the key of a field, in order. -/
def Field.valuesIn (field : Field) (members : List (Option String × Document)) : List Document :=
  (members.filter fun m => m.1 = some field.key).map (·.2)

theorem Field.key_of_ofKey? {key : String} {field : Field} (h : ofKey? key = some field) :
    field.key = key := by
  have hfound := List.find?_some h
  exact of_decide_eq_true hfound

theorem Field.key_ne_of_ofKey? {key : String} (h : ofKey? key = none) (field : Field) :
    field.key ≠ key := by
  have hall : field ∈ all := by cases field <;> decide
  unfold ofKey? at h
  exact fun hkey => List.find?_eq_none.mp h field hall (decide_eq_true hkey)

/-- No two fields have the same key. -/
theorem Field.key_injective {field other : Field} (h : field.key = other.key) : field = other := by
  have hkey := field.ofKey?_key
  rw [h, other.ofKey?_key] at hkey
  exact (Option.some.inj hkey).symm

/-- The member has a key, and if that is the key of no field, its value is whole. -/
def Passable (m : Option String × Document) : Prop :=
  ∃ key, m.1 = some key ∧ (Field.ofKey? key = none → m.2.isWhole = true)

section
variable {α : Type} [NumeralCode α]

/-- What values under the key of a field do to its slot. -/
def Fields.Takes (field : Field) (fs : Fields α) (ds : List Document) (fs' : Fields α) : Prop :=
  match field with
  | .budget => Fills Document.IsScalar fs.budget ds fs'.budget
  | .scale => Fills Document.IsScalar fs.scale ds fs'.scale
  | .schedule => Fills Document.IsSchedule fs.schedule ds fs'.schedule
  | .seed => Fills Document.IsSeed fs.seed ds fs'.seed

/-- **Reading a value fills the slot of its field**, which must have been empty. -/
inductive Fields.Puts (fs : Fields α) (d : Document) : Field → Fields α → Prop where
  /-- The budget. -/
  | budget {x : α} (empty : fs.budget = none) (hasForm : d.IsScalar x) :
      Puts fs d .budget { fs with budget := some x }
  /-- The scale. -/
  | scale {x : α} (empty : fs.scale = none) (hasForm : d.IsScalar x) :
      Puts fs d .scale { fs with scale := some x }
  /-- The schedule. -/
  | schedule {s : Schedule α} (empty : fs.schedule = none) (hasForm : d.IsSchedule s) :
      Puts fs d .schedule { fs with schedule := some s }
  /-- The seed. -/
  | seed {n : Option UInt64} (empty : fs.seed = none) (hasForm : d.IsSeed n) :
      Puts fs d .seed { fs with seed := some n }

namespace Fields

variable {fs fs' : Fields α}

theorem read_eq_ok_iff {field : Field} {d : Document} :
    fs.has field = false ∧ fs.read field d = .ok fs' ↔ fs.Puts d field fs' := by
  constructor
  · rintro ⟨hempty, hread⟩
    cases field with
    | budget =>
        obtain ⟨x, hx, rfl⟩ := exists_of_map_eq_ok hread
        exact .budget (Option.isSome_eq_false_iff.mp hempty |> Option.isNone_iff_eq_none.mp)
          (Document.readScalar_eq_ok_iff.mp hx)
    | scale =>
        obtain ⟨x, hx, rfl⟩ := exists_of_map_eq_ok hread
        exact .scale (Option.isSome_eq_false_iff.mp hempty |> Option.isNone_iff_eq_none.mp)
          (Document.readScalar_eq_ok_iff.mp hx)
    | schedule =>
        obtain ⟨s, hs, rfl⟩ := exists_of_map_eq_ok hread
        exact .schedule (Option.isSome_eq_false_iff.mp hempty |> Option.isNone_iff_eq_none.mp)
          (Document.readSchedule_eq_ok_iff.mp hs)
    | seed =>
        obtain ⟨n, hn, rfl⟩ := exists_of_map_eq_ok hread
        exact .seed (Option.isSome_eq_false_iff.mp hempty |> Option.isNone_iff_eq_none.mp)
          (Document.readSeed_eq_ok_iff.mp hn)
  · rintro (⟨hempty, hx⟩ | ⟨hempty, hx⟩ | ⟨hempty, hs⟩ | ⟨hempty, hn⟩)
    · simp only [has, read, hempty, Document.readScalar_eq_ok_iff.mpr hx]
      exact ⟨rfl, rfl⟩
    · simp only [has, read, hempty, Document.readScalar_eq_ok_iff.mpr hx]
      exact ⟨rfl, rfl⟩
    · simp only [has, read, hempty, Document.readSchedule_eq_ok_iff.mpr hs]
      exact ⟨rfl, rfl⟩
    · simp only [has, read, hempty, Document.readSeed_eq_ok_iff.mpr hn]
      exact ⟨rfl, rfl⟩

theorem readMember_key_eq_ok_iff {field : Field} {d : Document} :
    fs.readMember (some field.key) d = .ok fs' ↔ fs.Puts d field fs' := by
  rw [readMember_key, ← read_eq_ok_iff]
  cases fs.has field with
  | true => exact iff_of_false (fun h => nomatch h) (fun h => nomatch h.1)
  | false => exact (and_iff_right rfl).symm

/-- A member of another key has to be whole, and touches no slot. -/
theorem readMember_eq_ok_iff_of_ofKey? {key : String} (h : Field.ofKey? key = none)
    {d : Document} : fs.readMember (some key) d = .ok fs' ↔ Passable (some key, d) ∧ fs' = fs := by
  unfold readMember
  simp only [h]
  cases hwhole : d.isWhole with
  | true =>
      exact ⟨fun heq => ⟨⟨key, rfl, fun _ => hwhole⟩, (Except.ok.inj heq).symm⟩,
        fun heq => congrArg Except.ok heq.2.symm⟩
  | false =>
      refine iff_of_false (fun heq => nomatch heq) fun ⟨⟨other, hother, hpass⟩, _⟩ => ?_
      rw [← Option.some.inj hother] at hpass
      exact absurd (hpass h) (by rw [hwhole]; exact Bool.false_ne_true)

/-- One more value for a slot is one that is read first. -/
theorem takes_cons_iff {field : Field} {d : Document} {ds : List Document} :
    Takes field fs (d :: ds) fs' ↔ ∃ next, fs.Puts d field next ∧ Takes field next ds fs' := by
  constructor
  · intro h
    cases field with
    | budget =>
        obtain ⟨hempty, x, hx, hrest⟩ := Fills.cons_iff.mp h
        exact ⟨_, .budget hempty hx, hrest⟩
    | scale =>
        obtain ⟨hempty, x, hx, hrest⟩ := Fills.cons_iff.mp h
        exact ⟨_, .scale hempty hx, hrest⟩
    | schedule =>
        obtain ⟨hempty, s, hs, hrest⟩ := Fills.cons_iff.mp h
        exact ⟨_, .schedule hempty hs, hrest⟩
    | seed =>
        obtain ⟨hempty, n, hn, hrest⟩ := Fills.cons_iff.mp h
        exact ⟨_, .seed hempty hn, hrest⟩
  · rintro ⟨next, hputs, hrest⟩
    cases hputs with
    | budget hempty hx => exact Fills.cons_iff.mpr ⟨hempty, _, hx, hrest⟩
    | scale hempty hx => exact Fills.cons_iff.mpr ⟨hempty, _, hx, hrest⟩
    | schedule hempty hs => exact Fills.cons_iff.mpr ⟨hempty, _, hs, hrest⟩
    | seed hempty hn => exact Fills.cons_iff.mpr ⟨hempty, _, hn, hrest⟩

/-- The slots of the other fields are as they were. -/
theorem Puts.takes_iff {field other : Field} {d : Document} {next : Fields α}
    (h : fs.Puts d field next) (hother : other ≠ field) (ds : List Document) :
    Takes other next ds fs' ↔ Takes other fs ds fs' := by
  cases h <;> cases other <;> first | exact absurd rfl hother | exact Iff.rfl

theorem exists_puts_iff {field : Field} {d : Document} {values : Field → List Document} :
    (∃ next, fs.Puts d field next ∧ ∀ other, Takes other next (values other) fs')
      ↔ ∀ other, Takes other fs (if field = other then d :: values other else values other) fs' := by
  constructor
  · rintro ⟨next, hputs, hrest⟩ other
    by_cases hother : field = other
    · subst hother
      rw [if_pos rfl]
      exact takes_cons_iff.mpr ⟨next, hputs, hrest field⟩
    · rw [if_neg hother]
      exact (hputs.takes_iff (Ne.symm hother) _).mp (hrest other)
  · intro h
    have hfield := h field
    rw [if_pos rfl] at hfield
    obtain ⟨next, hputs, hrest⟩ := takes_cons_iff.mp hfield
    refine ⟨next, hputs, fun other => ?_⟩
    by_cases hother : field = other
    · exact hother ▸ hrest
    · have hsame := h other
      rw [if_neg hother] at hsame
      exact (hputs.takes_iff (Ne.symm hother) _).mpr hsame

end Fields

theorem Field.valuesIn_cons_key (field other : Field) (d : Document)
    (ms : List (Option String × Document)) :
    other.valuesIn ((some field.key, d) :: ms)
      = if field = other then d :: other.valuesIn ms else other.valuesIn ms := by
  unfold valuesIn
  rw [List.filter_cons]
  by_cases hother : field = other
  · subst hother
    simp
  · have hkey : field.key ≠ other.key := fun h => hother (key_injective h)
    simp [hother, hkey]

theorem Field.valuesIn_cons_of_ofKey? {key : String} (h : ofKey? key = none) (field : Field)
    (d : Document) (ms : List (Option String × Document)) :
    field.valuesIn ((some key, d) :: ms) = field.valuesIn ms := by
  have hkey : key ≠ field.key := fun heq => key_ne_of_ofKey? h field heq.symm
  unfold valuesIn
  simp [hkey]

/-- Without values all slots stay. -/
theorem Fields.takes_nil_iff {fs fs' : Fields α} :
    (∀ field, Takes field fs [] fs') ↔ fs' = fs := by
  constructor
  · intro h
    obtain ⟨budget, scale, schedule, seed⟩ := fs'
    obtain rfl : budget = fs.budget := Fills.nil_iff.mp (h .budget)
    obtain rfl : scale = fs.scale := Fills.nil_iff.mp (h .scale)
    obtain rfl : schedule = fs.schedule := Fills.nil_iff.mp (h .schedule)
    obtain rfl : seed = fs.seed := Fills.nil_iff.mp (h .seed)
    rfl
  · rintro rfl field
    cases field <;> exact .stays _

/-- **Reading members in order** is filling each slot with the values under its key.  By
induction on the members, with the slots as they are when a member is read. -/
theorem Fields.readMembers_eq_ok_iff {fs' : Fields α} {ms : List (Option String × Document)} :
    ∀ {fs : Fields α}, fs.readMembers ms = .ok fs'
      ↔ (∀ m ∈ ms, Passable m) ∧ ∀ field, Takes field fs (field.valuesIn ms) fs' := by
  induction ms with
  | nil =>
      intro fs
      have hvalues : (∀ field, Takes field fs (Field.valuesIn field []) fs') ↔ fs' = fs :=
        takes_nil_iff
      rw [hvalues]
      exact ⟨fun h => ⟨fun _ hm => absurd hm List.not_mem_nil, (Except.ok.inj h).symm⟩,
        fun h => congrArg Except.ok h.2.symm⟩
  | cons m ms ih =>
      intro fs
      obtain ⟨key, d⟩ := m
      have hread : fs.readMembers ((key, d) :: ms) = .ok fs'
          ↔ ∃ next, fs.readMember key d = .ok next ∧ next.readMembers ms = .ok fs' := by
        constructor
        · exact exists_of_bind_eq_ok
        · rintro ⟨next, hnext, hrest⟩
          unfold readMembers
          rw [hnext]
          exact hrest
      rw [hread, List.forall_mem_cons]
      simp only [ih]
      cases key with
      | none =>
          constructor
          · rintro ⟨_, hnext, -⟩
            cases hnext
          · rintro ⟨⟨⟨_, hkey, -⟩, -⟩, -⟩
            cases hkey
      | some key =>
          cases hkey : Field.ofKey? key with
          | none =>
              simp only [Field.valuesIn_cons_of_ofKey? hkey, readMember_eq_ok_iff_of_ofKey? hkey,
                and_assoc]
              exact exists_and_left.trans (and_congr_right fun _ => exists_eq_left)
          | some field =>
              obtain rfl := Field.key_of_ofKey? hkey
              have hpassable : Passable (some field.key, d) :=
                ⟨_, rfl, fun h => by rw [hkey] at h; cases h⟩
              simp only [readMember_key_eq_ok_iff, Field.valuesIn_cons_key, ← exists_puts_iff,
                and_iff_right hpassable]
              constructor
              · rintro ⟨next, hputs, hms, hrest⟩
                exact ⟨hms, next, hputs, hrest⟩
              · rintro ⟨hms, next, hputs, hrest⟩
                exact ⟨next, hputs, hms, hrest⟩

/-! ## §4. The forms of a tuning -/

/-- All three of the first fields have been read. -/
theorem Fields.toTuning_eq_ok_iff {α : Type} {fs : Fields α} {t : Tuning α} :
    fs.toTuning = .ok t ↔ fs.budget = some t.budget ∧ fs.scale = some t.scale
      ∧ fs.schedule = some t.schedule ∧ fs.seed.join = t.seed := by
  constructor
  · intro h
    obtain ⟨budget, hb, h⟩ := exists_of_bind_eq_ok h
    obtain ⟨scale, hk, h⟩ := exists_of_bind_eq_ok h
    obtain ⟨schedule, hs, h⟩ := exists_of_bind_eq_ok h
    obtain rfl := Except.ok.inj h
    exact ⟨eq_some_of_require hb, eq_some_of_require hk, eq_some_of_require hs, rfl⟩
  · rintro ⟨hb, hk, hs, hseed⟩
    unfold toTuning
    rw [hb, hk, hs, hseed]
    rfl

end

/-- The object is well formed: its keys are texts and its values are whole. -/
def Document.WellFormedMembers (members : List (Option String × Document)) : Prop :=
  ∀ m ∈ members, m.1.isSome = true ∧ m.2.isWhole = true

/-- **The members of an object describe the tuning**: under the keys of budget, scale and schedule
stands one value each, and under that of the seed at most one; the values have the forms of
those of the tuning, and no seed stands for none. -/
structure Tuning.DescribedBy {α : Type} [NumeralCode α] (t : Tuning α)
    (members : List (Option String × Document)) : Prop where
  budget : ∃ d, Field.budget.valuesIn members = [d] ∧ d.IsScalar t.budget
  scale : ∃ d, Field.scale.valuesIn members = [d] ∧ d.IsScalar t.scale
  schedule : ∃ d, Field.schedule.valuesIn members = [d] ∧ d.IsSchedule t.schedule
  seed : Field.seed.valuesIn members = [] ∧ t.seed = none
    ∨ ∃ d, Field.seed.valuesIn members = [d] ∧ d.IsSeed t.seed

section
variable {α : Type} [NumeralCode α]

theorem Field.mem_valuesIn {field : Field} {d : Document}
    {members : List (Option String × Document)} :
    d ∈ field.valuesIn members ↔ (some field.key, d) ∈ members := by
  unfold valuesIn
  simp

/-- The values of fields that describe a tuning are whole, so the members are if the others are. -/
theorem Tuning.DescribedBy.wellFormed {members : List (Option String × Document)} {t : Tuning α}
    (h : t.DescribedBy members) (hpass : ∀ m ∈ members, Passable m) :
    Document.WellFormedMembers members := by
  intro m hm
  obtain ⟨key, hkey, hother⟩ := hpass m hm
  refine ⟨by rw [hkey]; rfl, ?_⟩
  cases hfield : Field.ofKey? key with
  | none => exact hother hfield
  | some field =>
      obtain rfl := Field.key_of_ofKey? hfield
      have hvalue : m.2 ∈ field.valuesIn members := Field.mem_valuesIn.mpr (hkey ▸ hm)
      cases field with
      | budget =>
          obtain ⟨d, hd, hform⟩ := h.budget
          rw [hd, List.mem_singleton] at hvalue
          exact hvalue ▸ hform.isWhole
      | scale =>
          obtain ⟨d, hd, hform⟩ := h.scale
          rw [hd, List.mem_singleton] at hvalue
          exact hvalue ▸ hform.isWhole
      | schedule =>
          obtain ⟨d, hd, hform⟩ := h.schedule
          rw [hd, List.mem_singleton] at hvalue
          exact hvalue ▸ hform.isWhole
      | seed =>
          rcases h.seed with ⟨hnone, -⟩ | ⟨d, hd, hform⟩
          · rw [hnone] at hvalue
            exact absurd hvalue List.not_mem_nil
          · rw [hd, List.mem_singleton] at hvalue
            exact hvalue ▸ hform.isWhole

/-- Filling empty slots and taking the tuning out of them is being described by the values. -/
theorem Fields.exists_takes_iff {members : List (Option String × Document)} {t : Tuning α} :
    (∃ fs : Fields α, (∀ field, Takes field {} (field.valuesIn members) fs)
        ∧ fs.toTuning = .ok t) ↔ t.DescribedBy members := by
  constructor
  · rintro ⟨fs, htakes, ht⟩
    obtain ⟨hb, hk, hs, hseed⟩ := toTuning_eq_ok_iff.mp ht
    have hbudget : Fills _ none _ fs.budget := htakes .budget
    have hscale : Fills _ none _ fs.scale := htakes .scale
    have hschedule : Fills _ none _ fs.schedule := htakes .schedule
    have hseeds : Fills Document.IsSeed none _ fs.seed := htakes .seed
    rw [hb] at hbudget
    rw [hk] at hscale
    rw [hs] at hschedule
    refine ⟨Fills.some_iff.mp hbudget, Fills.some_iff.mp hscale, Fills.some_iff.mp hschedule, ?_⟩
    cases hslot : fs.seed with
    | none =>
        rw [hslot] at hseeds hseed
        exact .inl ⟨Fills.none_iff.mp hseeds, hseed.symm⟩
    | some seed =>
        rw [hslot] at hseeds hseed
        obtain rfl : seed = t.seed := hseed
        exact .inr (Fills.some_iff.mp hseeds)
  · rintro ⟨hb, hk, hs, hseed⟩
    have hslot : ∃ slot, Fills Document.IsSeed none (Field.seed.valuesIn members) slot
        ∧ slot.join = t.seed := by
      rcases hseed with ⟨hnone, hseed⟩ | hsome
      · exact ⟨none, Fills.none_iff.mpr hnone, hseed.symm⟩
      · exact ⟨some t.seed, Fills.some_iff.mpr hsome, rfl⟩
    obtain ⟨slot, hfills, hjoin⟩ := hslot
    refine ⟨⟨some t.budget, some t.scale, some t.schedule, slot⟩, fun field => ?_,
      toTuning_eq_ok_iff.mpr ⟨rfl, rfl, rfl, hjoin⟩⟩
    cases field with
    | budget => exact Fills.some_iff.mpr hb
    | scale => exact Fills.some_iff.mpr hk
    | schedule => exact Fills.some_iff.mpr hs
    | seed => exact hfills

namespace Tuning

/-- **An object is read as a tuning** exactly if it is closed and well formed and its members
describe the tuning. -/
theorem ofDocument_object_iff {members : List (Option String × Document)} {ending : Ending}
    {t : Tuning α} :
    ofDocument (.object members ending) = .ok t
      ↔ ending = .closed ∧ Document.WellFormedMembers members ∧ t.DescribedBy members := by
  have hread : ofDocument (.object members ending) = .ok t
      ↔ ending = .closed
        ∧ ∃ fs : Fields α, ({} : Fields α).readMembers members = .ok fs ∧ fs.toTuning = .ok t := by
    constructor
    · intro h
      obtain ⟨fs, hfs, h⟩ := exists_of_bind_eq_ok h
      cases ending with
      | closed => exact ⟨rfl, fs, hfs, h⟩
      | broken => cases h
    · rintro ⟨rfl, fs, hfs, ht⟩
      unfold ofDocument
      simp only [hfs]
      exact ht
  rw [hread]
  refine and_congr_right fun _ => ?_
  simp only [Fields.readMembers_eq_ok_iff, and_assoc, exists_and_left, Fields.exists_takes_iff]
  constructor
  · rintro ⟨hpass, h⟩
    exact ⟨h.wellFormed hpass, h⟩
  · rintro ⟨hwell, h⟩
    refine ⟨fun m hm => ?_, h⟩
    obtain ⟨hkey, hwhole⟩ := hwell m hm
    exact ⟨_, (Option.some_get hkey).symm, fun _ => hwhole⟩

/-- **An array is read as a tuning** exactly if it is closed and has just the four values. -/
theorem ofDocument_array_iff {items : List Document} {ending : Ending} {t : Tuning α} :
    ofDocument (.array items ending) = .ok t
      ↔ ending = .closed ∧ ∃ budget scale schedule seed, items = [budget, scale, schedule, seed]
        ∧ budget.IsScalar t.budget ∧ scale.IsScalar t.scale ∧ schedule.IsSchedule t.schedule
        ∧ seed.IsSeed t.seed := by
  constructor
  · intro h
    change readItems items ending = .ok t at h
    -- an array that ends early is refused when its items have been read
    rcases items with _ | ⟨budget, items⟩
    · cases h
    obtain ⟨x, hx, h⟩ := exists_of_bind_eq_ok h
    rcases items with _ | ⟨scale, items⟩
    · cases h
    obtain ⟨k, hk, h⟩ := exists_of_bind_eq_ok h
    rcases items with _ | ⟨schedule, items⟩
    · cases h
    obtain ⟨s, hs, h⟩ := exists_of_bind_eq_ok h
    rcases items with _ | ⟨seed, items⟩
    · cases h
    obtain ⟨n, hn, h⟩ := exists_of_bind_eq_ok h
    split at h
    next hend =>
      obtain rfl := Except.ok.inj h
      obtain ⟨hrest, hending⟩ := Bool.and_eq_true_iff.mp hend
      obtain rfl := List.isEmpty_iff.mp hrest
      refine ⟨?_, budget, scale, schedule, seed, rfl, Document.readScalar_eq_ok_iff.mp hx,
        Document.readScalar_eq_ok_iff.mp hk, Document.readSchedule_eq_ok_iff.mp hs,
        Document.readSeed_eq_ok_iff.mp hn⟩
      cases ending with
      | closed => rfl
      | broken => cases hending
    next => cases h
  · rintro ⟨rfl, budget, scale, schedule, seed, rfl, hx, hk, hs, hn⟩
    simp only [ofDocument, readItems, Document.readScalar_eq_ok_iff.mpr hx,
      Document.readScalar_eq_ok_iff.mpr hk, Document.readSchedule_eq_ok_iff.mpr hs,
      Document.readSeed_eq_ok_iff.mpr hn]
    rfl

/-- **The array of four values is read like the object that has them under their keys**, with the
same fault if there is one. -/
theorem ofDocument_array_eq (budget scale schedule seed : Document) :
    (ofDocument (.array [budget, scale, schedule, seed] .closed) : Except (ReadFault α) (Tuning α))
      = ofDocument (.object
          [(some Field.budget.key, budget), (some Field.scale.key, scale),
            (some Field.schedule.key, schedule), (some Field.seed.key, seed)] .closed) := by
  simp only [ofDocument, readItems, Fields.readMembers, Fields.readMember_key, Fields.has,
    Fields.read, Option.isSome_none, Bool.false_eq_true, if_false]
  cases (budget.readScalar : Except (ReadFault α) α) with
  | error fault => rfl
  | ok x =>
      cases (scale.readScalar : Except (ReadFault α) α) with
      | error fault => rfl
      | ok k =>
          cases (schedule.readSchedule : Except (ReadFault α) (Schedule α)) with
          | error fault => rfl
          | ok s =>
              cases (seed.readSeed : Except (ReadFault α) (Option UInt64)) with
              | error fault => rfl
              | ok n => rfl

end Tuning

/-! ## §5. What the reading depends on -/

/-- The members that stand under the key of a field. -/
def Field.membersOf (members : List (Option String × Document)) :
    List (Option String × Document) :=
  members.filter fun m => (m.1.bind Field.ofKey?).isSome

/-- Members under other keys have no part in the values of a field. -/
theorem Field.valuesIn_membersOf (field : Field) (members : List (Option String × Document)) :
    field.valuesIn (membersOf members) = field.valuesIn members := by
  unfold valuesIn membersOf
  rw [List.filter_filter]
  congr 2
  funext m
  by_cases hkey : m.1 = some field.key
  · simp [hkey, field.ofKey?_key]
  · simp [hkey]

/-- Nor has the order of the members, as far as it is not the order of the values. -/
theorem Field.valuesIn_perm (field : Field) {members others : List (Option String × Document)}
    (h : (membersOf members).Perm (membersOf others)) :
    (field.valuesIn members).Perm (field.valuesIn others) := by
  rw [← field.valuesIn_membersOf members, ← field.valuesIn_membersOf others]
  exact (h.filter _).map _

namespace Tuning

/-- A description depends on the values of the fields alone. -/
theorem DescribedBy.of_perm {members others : List (Option String × Document)} {t : Tuning α}
    (h : ∀ field : Field, (field.valuesIn members).Perm (field.valuesIn others))
    (ht : t.DescribedBy members) : t.DescribedBy others := by
  -- a list of at most one value has no other order
  have hone : ∀ (field : Field) {d}, field.valuesIn members = [d] → field.valuesIn others = [d] :=
    fun field d hd => List.perm_singleton.mp (hd ▸ (h field).symm)
  obtain ⟨⟨b, hb, hbudget⟩, ⟨k, hk, hscale⟩, ⟨s, hs, hschedule⟩, hseed⟩ := ht
  refine ⟨⟨b, hone _ hb, hbudget⟩, ⟨k, hone _ hk, hscale⟩, ⟨s, hone _ hs, hschedule⟩, ?_⟩
  rcases hseed with ⟨hnone, hseed⟩ | ⟨d, hd, hseed⟩
  · exact .inl ⟨List.perm_nil.mp (hnone ▸ (h .seed).symm), hseed⟩
  · exact .inr ⟨d, hone _ hd, hseed⟩

/-- **What is read as a tuning.**

  * A well-formed object is read as a tuning exactly if its members describe it; without a
    member for the seed there is none.
  * Two well-formed objects that have the same members under the keys of fields, in whatever order
    and among whatever others, are read as the same tuning, or neither is read.
  * An array is read as a tuning exactly if it has just the four values, and like the object
    that has them under their keys.
  * Nothing else is read: no object that is broken off, has a key without a text or a value
    that is not whole, no array that is broken off, and no document of another kind; and no
    custom schedule.
  * A text is read as its document is, if nothing follows it. -/
theorem document_forms :
    (∀ members (t : Tuning α), Document.WellFormedMembers members →
        (ofDocument (.object members .closed) = .ok t ↔ t.DescribedBy members))
    ∧ (∀ members others (t : Tuning α), Document.WellFormedMembers members →
        Document.WellFormedMembers others →
        (Field.membersOf members).Perm (Field.membersOf others) →
        (ofDocument (.object members .closed) = .ok t
          ↔ ofDocument (.object others .closed) = .ok t))
    ∧ (∀ items (t : Tuning α), ofDocument (.array items .closed) = .ok t
        ↔ ∃ budget scale schedule seed, items = [budget, scale, schedule, seed]
          ∧ budget.IsScalar t.budget ∧ scale.IsScalar t.scale ∧ schedule.IsSchedule t.schedule
          ∧ seed.IsSeed t.seed)
    ∧ (∀ budget scale schedule seed,
        (ofDocument (.array [budget, scale, schedule, seed] .closed)
            : Except (ReadFault α) (Tuning α))
          = ofDocument (.object
              [(some "iteration_budget", budget), (some "k", scale), (some "cooling", schedule),
                (some "seed", seed)] .closed))
    ∧ (∀ d (t : Tuning α), ofDocument d = .ok t →
        ((∃ members, d = .object members .closed ∧ Document.WellFormedMembers members)
          ∨ ∃ items, d = .array items .closed)
        ∧ ¬ ∃ rule, t.schedule = .custom rule)
    ∧ (∀ text (t : Tuning α), ofText text = .ok t
        ↔ (Document.ofText text).2 = true ∧ ofDocument (Document.ofText text).1 = .ok t) := by
  have hobject : ∀ members (t : Tuning α), Document.WellFormedMembers members →
      (ofDocument (.object members .closed) = .ok t ↔ t.DescribedBy members) := fun _ _ hwell =>
    ofDocument_object_iff.trans ((and_iff_right rfl).trans (and_iff_right hwell))
  refine ⟨hobject, ?_, fun _ _ => ofDocument_array_iff.trans (and_iff_right rfl),
    ofDocument_array_eq, ?_, ?_⟩
  · intro members others t hmembers hothers hperm
    rw [hobject members t hmembers, hobject others t hothers]
    exact ⟨.of_perm fun field => field.valuesIn_perm hperm,
      .of_perm fun field => field.valuesIn_perm hperm.symm⟩
  · intro d t ht
    have hform : ((∃ members, d = .object members .closed ∧ Document.WellFormedMembers members)
        ∨ ∃ items, d = .array items .closed) ∧ ∃ s, Document.IsSchedule s t.schedule := by
      cases d with
      | object members ending =>
          obtain ⟨rfl, hwell, hdescribed⟩ := ofDocument_object_iff.mp ht
          obtain ⟨s, -, hs⟩ := hdescribed.schedule
          exact ⟨.inl ⟨members, rfl, hwell⟩, s, hs⟩
      | array items ending =>
          obtain ⟨rfl, _, _, s, _, -, -, -, hs, -⟩ := ofDocument_array_iff.mp ht
          exact ⟨.inr ⟨items, rfl⟩, s, hs⟩
      | _ => cases ht
    obtain ⟨hshape, s, hs⟩ := hform
    refine ⟨hshape, fun ⟨rule, hrule⟩ => ?_⟩
    rw [hrule] at hs
    cases hs <;> contradiction
  · intro text t
    unfold ofText
    cases hd : Document.ofText text with
    | mk d isAll =>
        constructor
        · intro h
          obtain ⟨t', ht, h⟩ := exists_of_bind_eq_ok h
          cases isAll with
          | true => exact ⟨rfl, Except.ok.inj h ▸ ht⟩
          | false => cases h
        · rintro ⟨hall, ht⟩
          change isAll = true at hall
          change ofDocument d = .ok t at ht
          subst hall
          simp only [ht]
          rfl

end Tuning

end

/-! ## §6. One tuning in three layouts -/

namespace Tuning

/-- A budget of a thousand, a scale, linear cooling, and the greatest seed. -/
def written : Tuning Float :=
  { budget := 1000.0, scale := 2.5, schedule := .linear, seed := some 0xffffffffffffffff }

/-- Its values, in the order of the fields. -/
def writtenValues : List Document :=
  [.number ⟨false, 1, 3, false⟩, .number ⟨false, 25, -1, false⟩,
    .object [(some "Linear", .null)] .closed, .number ⟨false, 0xffffffffffffffff, 0, true⟩]

/-- Members in order, and no others. -/
def writtenPlainly : List (Option String × Document) :=
  [(some "iteration_budget", .number ⟨false, 1, 3, false⟩),
    (some "k", .number ⟨false, 25, -1, false⟩),
    (some "cooling", .object [(some "Linear", .null)] .closed),
    (some "seed", .number ⟨false, 0xffffffffffffffff, 0, true⟩)]

/-- The same members in another order, after one of another key with a number out of range and
a text without a value. -/
def writtenFreely : List (Option String × Document) :=
  [(some "note", .array [.number ⟨false, 1, 999, false⟩, .text none] .closed),
    (some "k", .number ⟨false, 25, -1, false⟩),
    (some "cooling", .object [(some "Linear", .null)] .closed),
    (some "seed", .number ⟨false, 0xffffffffffffffff, 0, true⟩),
    (some "iteration_budget", .number ⟨false, 1, 3, false⟩)]

/-- All three are read as the same tuning. -/
theorem document_forms_written :
    Document.WellFormedMembers writtenPlainly ∧ Document.WellFormedMembers writtenFreely
    ∧ (Field.membersOf writtenPlainly).Perm (Field.membersOf writtenFreely)
    ∧ ofDocument (.object writtenPlainly .closed) = .ok written
    ∧ ofDocument (.object writtenFreely .closed) = .ok written
    ∧ ofDocument (.array writtenValues .closed) = .ok written := by
  obtain ⟨hobject, hsame, -, harray, -, -⟩ := document_forms (α := Float)
  have hplain : Document.WellFormedMembers writtenPlainly := by
    simp [Document.WellFormedMembers, writtenPlainly, Document.isWhole, Document.membersWhole,
      Ending.isClosed]
  have hfree : Document.WellFormedMembers writtenFreely := by
    simp [Document.WellFormedMembers, writtenFreely, Document.isWhole, Document.membersWhole,
      Document.itemsWhole, Ending.isClosed]
  have hperm : (Field.membersOf writtenPlainly).Perm (Field.membersOf writtenFreely) :=
    (List.perm_append_comm : (writtenPlainly.take 1 ++ writtenPlainly.drop 1).Perm
      (writtenPlainly.drop 1 ++ writtenPlainly.take 1))
  have hdescribed : written.DescribedBy writtenPlainly :=
    { budget := ⟨_, rfl, .number rfl⟩
      scale := ⟨_, rfl, .number rfl⟩
      schedule := ⟨_, rfl, .keyed rfl⟩
      seed := .inr ⟨_, rfl, .word 0xffffffffffffffff 0⟩ }
  have hread := (hobject _ _ hplain).mpr hdescribed
  exact ⟨hplain, hfree, hperm, hread, (hsame _ _ _ hplain hfree hperm).mp hread,
    (harray _ _ _ _).trans hread⟩

/-- A key is compared as the text that it stands for. -/
example :
    (ofText "\x7b\"\\u006b\":2.5,\"cooling\":\"Linear\",\"iteration_budget\":1e3\x7d"
        : Except (ReadFault Float) (Tuning Float)).toOption.map (fun t => (t.budget, t.scale, t.seed))
      = some (1000.0, 2.5, none) := by
  decide +kernel

end Tuning

end Annealing
