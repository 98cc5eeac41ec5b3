/-
  Annealing.Proofs.RoundTrip
  ──────────────────────────
  **TUNINGS THROUGH DOCUMENTS AND BACK.**

  Writing and reading are not inverse to each other: a custom schedule cannot be
  written, a number without a numeral is written as `null`, which is read as no
  seed but not as a number, and a document may be laid out in many ways.  What
  both sides share are the tunings with a named schedule and finite numbers,
  `Tuning.Storable`: these come back as they were, all others are lost on the
  way, and nothing else is ever read.

  Of the notation of numbers only `LawfulNumerals` is used; that of doubles is
  lawful, down to the last bit.

    • `ofDocument_of_toDocument` — what reading does with what was written,
    • `storable_of_ofDocument` — what can be read at all: an invariant of the
      fields, member by member,
    • `document_roundTrip` — both directions, for doubles.
-/
import Annealing.Proofs.Binary64.Numerals
import Annealing.Tuning.Check
import Annealing.Tuning.Reading
import Annealing.Tuning.Writing

namespace Annealing

/-! ## §1. What is asked of a notation for scalars -/

/-- **A notation that has the finite scalars and no others**, each with a numeral that stands
for it. -/
class LawfulNumerals (α : Type) [Scalar α] [NumeralCode α] : Prop where
  /-- The scalars with a numeral are the finite ones. -/
  isSome_encode? : ∀ x : α, (NumeralCode.encode? x).isSome = Scalar.isFinite x
  /-- The numeral of a scalar is read as this scalar. -/
  decode?_of_encode? : ∀ {x : α} {n : Numeral},
    NumeralCode.encode? x = some n → NumeralCode.decode? n = some x
  /-- Every numeral that is read stands for a finite scalar. -/
  isFinite_of_decode? : ∀ {n : Numeral} {x : α},
    NumeralCode.decode? n = some x → Scalar.isFinite x = true

instance : LawfulNumerals Float where
  isSome_encode? x := by
    rw [Binary64.encode?_eq]
    show _ = x.isFinite
    cases x.isFinite <;> rfl
  decode?_of_encode? := by
    intro x n h
    rw [Binary64.encode?_eq] at h
    split at h
    next hfinite =>
      obtain rfl := Option.some.inj h
      exact Binary64.decode?_numeral hfinite
    next => cases h
  isFinite_of_decode? := Binary64.isFinite_of_decode?

/-! ## §2. Schedules and seeds -/

theorem exists_of_bind_eq_ok {ε β γ : Type} {x : Except ε β} {f : β → Except ε γ} {c : γ}
    (h : (x >>= f) = .ok c) : ∃ b, x = .ok b ∧ f b = .ok c := by
  cases x with
  | error fault => cases h
  | ok b => exact ⟨b, rfl, h⟩

theorem exists_of_map_eq_ok {ε β γ : Type} {x : Except ε β} {f : β → γ} {c : γ}
    (h : x.map f = .ok c) : ∃ b, x = .ok b ∧ f b = c := by
  cases x with
  | error fault => cases h
  | ok b => exact ⟨b, rfl, Except.ok.inj h⟩

section
variable {α : Type}

theorem Fields.eq_some_of_require {β : Type} {field : Field} {x : Option β} {y : β}
    (h : (require field x : Except (ReadFault α) β) = .ok y) : x = some y := by
  cases x with
  | none => cases h
  | some z => exact congrArg some (Except.ok.inj h)

namespace Schedule

theorem isBuiltIn_eq_false_iff (s : Schedule α) :
    s.isBuiltIn = false ↔ ∃ rule, s = .custom rule := by
  cases s with
  | exponential => exact iff_of_false (fun h => nomatch h) (fun ⟨_, h⟩ => nomatch h)
  | linear => exact iff_of_false (fun h => nomatch h) (fun ⟨_, h⟩ => nomatch h)
  | custom rule => exact iff_of_true rfl ⟨rule, rfl⟩

theorem isBuiltIn_of_ofName? {name : String} {s : Schedule α} (h : ofName? name = some s) :
    s.isBuiltIn = true := by
  unfold ofName? at h
  split at h
  · obtain rfl := Option.some.inj h
    rfl
  · split at h
    · obtain rfl := Option.some.inj h
      rfl
    · cases h

theorem ofName?_of_name? {s : Schedule α} {name : String} (h : s.name? = some name) :
    ofName? name = some s := by
  cases s with
  | exponential =>
      obtain rfl := Option.some.inj h
      rfl
  | linear =>
      obtain rfl := Option.some.inj h
      rfl
  | custom rule => cases h

end Schedule

namespace Document

/-- A built-in schedule is read back from its name. -/
theorem readScheduleName_of_name? {s : Schedule α} {name : String} (h : s.name? = some name) :
    readScheduleName (some name) = .ok s := by
  unfold readScheduleName
  simp only [Schedule.ofName?_of_name? h]

/-- A schedule that is read from a name is a built-in one. -/
theorem isBuiltIn_of_readScheduleName {name : Option String} {s : Schedule α}
    (h : readScheduleName name = .ok s) : s.isBuiltIn = true := by
  cases name with
  | none => cases h
  | some name =>
      unfold readScheduleName at h
      cases hname : (Schedule.ofName? name : Option (Schedule α)) with
      | none =>
          simp only [hname] at h
          cases h
      | some s' =>
          simp only [hname] at h
          obtain rfl := Except.ok.inj h
          exact Schedule.isBuiltIn_of_ofName? hname

end Document

variable [NumeralCode α]

namespace Document

/-- So is one that is read from an object. -/
theorem isBuiltIn_of_readSchedule {d : Document} {s : Schedule α} (h : readSchedule d = .ok s) :
    s.isBuiltIn = true := by
  unfold readSchedule at h
  split at h
  · exact isBuiltIn_of_readScheduleName h
  · obtain ⟨s', hname, h⟩ := exists_of_bind_eq_ok h
    obtain ⟨-, -, h⟩ := exists_of_bind_eq_ok h
    split at h
    · obtain rfl := Except.ok.inj h
      exact isBuiltIn_of_readScheduleName hname
    · cases h
  · cases h

/-- Every seed has a numeral that fits a word. -/
theorem word?_ofNat (n : UInt64) : (Numeral.ofNat n.toNat).word? = some (n.toNat : Int) := by
  have hlt := n.toNat_lt
  refine Option.filter_eq_some_iff.mpr ⟨rfl, ?_⟩
  rw [decide_eq_true (show (-0x8000000000000000 : Int) ≤ n.toNat by omega),
    decide_eq_true (show (n.toNat : Int) < 0x10000000000000000 by omega)]
  rfl

theorem readSeed_number {n : Numeral} {i : Int} (h : n.word? = some i) (hi : 0 ≤ i) :
    (readSeed (.number n) : Except (ReadFault α) (Option UInt64))
      = .ok (some i.toNat.toUInt64) := by
  unfold readSeed
  simp only [h]
  exact if_neg (not_lt.mpr hi)

/-- **A seed is read back**, also if there is none. -/
theorem readSeed_writeSeed (seed : Option UInt64) :
    (readSeed (Tuning.writeSeed seed) : Except (ReadFault α) (Option UInt64)) = .ok seed := by
  cases seed with
  | none => rfl
  | some n =>
      have hword : (n.toNat : Int).toNat.toUInt64 = n := by
        rw [Int.toNat_natCast, Nat.toUInt64, UInt64.ofNat_toNat]
      refine (readSeed_number (word?_ofNat n) (Int.natCast_nonneg _)).trans ?_
      rw [hword]

end Document

end

/-! ## §3. Numbers -/

section
variable {α : Type} [Scalar α] [NumeralCode α] [LawfulNumerals α]

namespace Document

/-- **A finite number is read back.** -/
theorem readScalar_writeScalar {x : α} (h : Scalar.isFinite x = true) :
    readScalar (Tuning.writeScalar x) = .ok x := by
  have hsome := LawfulNumerals.isSome_encode? x
  rw [h] at hsome
  obtain ⟨n, hn⟩ := Option.isSome_iff_exists.mp hsome
  unfold Tuning.writeScalar readScalar
  simp only [hn, Option.map_some, Option.getD_some, LawfulNumerals.decode?_of_encode? hn]

/-- Any other is written as `null`, which is not read as a number. -/
theorem readScalar_writeScalar_of_not_isFinite {x : α} (h : Scalar.isFinite x = false) :
    readScalar (Tuning.writeScalar x)
      = (.error (.wrongKind .null .scalar) : Except (ReadFault α) α) := by
  have hsome := LawfulNumerals.isSome_encode? x
  rw [h, Option.isSome_eq_false_iff, Option.isNone_iff_eq_none] at hsome
  unfold Tuning.writeScalar
  rw [hsome]
  rfl

theorem eq_of_readScalar_writeScalar {x y : α} (h : readScalar (Tuning.writeScalar x) = .ok y) :
    Scalar.isFinite x = true ∧ y = x := by
  cases hx : Scalar.isFinite x with
  | true =>
      rw [readScalar_writeScalar hx] at h
      exact ⟨rfl, (Except.ok.inj h).symm⟩
  | false =>
      rw [readScalar_writeScalar_of_not_isFinite hx] at h
      cases h

theorem isFinite_of_readScalar {d : Document} {x : α} (h : readScalar d = .ok x) :
    Scalar.isFinite x = true := by
  unfold readScalar at h
  split at h
  next n =>
    split at h
    next y hy =>
      obtain rfl := Except.ok.inj h
      exact LawfulNumerals.isFinite_of_decode? hy
    next => cases h
  next => cases h

end Document

end

/-! ## §4. What can be read -/

section
variable {α : Type} [Scalar α]

/-- **The tunings that documents hold**: the schedule has a name and the numbers are finite. -/
structure Tuning.Storable (t : Tuning α) : Prop where
  builtIn : t.schedule.isBuiltIn = true
  budget : Scalar.isFinite t.budget = true
  scale : Scalar.isFinite t.scale = true

/-- The same of the fields read so far. -/
structure Fields.Storable (fs : Fields α) : Prop where
  builtIn : ∀ s ∈ fs.schedule, s.isBuiltIn = true
  budget : ∀ x ∈ fs.budget, Scalar.isFinite x = true
  scale : ∀ x ∈ fs.scale, Scalar.isFinite x = true

theorem Fields.Storable.empty : Fields.Storable ({} : Fields α) :=
  ⟨fun _ h => (nomatch h), fun _ h => (nomatch h), fun _ h => (nomatch h)⟩

theorem Fields.Storable.toTuning {fs : Fields α} (h : fs.Storable) {t : Tuning α}
    (ht : fs.toTuning = .ok t) : t.Storable := by
  obtain ⟨budget, hb, ht⟩ := exists_of_bind_eq_ok ht
  obtain ⟨scale, hk, ht⟩ := exists_of_bind_eq_ok ht
  obtain ⟨schedule, hs, ht⟩ := exists_of_bind_eq_ok ht
  obtain rfl := Except.ok.inj ht
  exact ⟨h.builtIn schedule (eq_some_of_require hs), h.budget budget (eq_some_of_require hb),
    h.scale scale (eq_some_of_require hk)⟩

variable [NumeralCode α] [LawfulNumerals α]

namespace Fields.Storable

variable {fs fs' : Fields α}

theorem read (h : fs.Storable) {field : Field} {d : Document} (hr : fs.read field d = .ok fs') :
    fs'.Storable := by
  unfold Fields.read at hr
  cases field with
  | budget =>
      obtain ⟨x, hx, rfl⟩ := exists_of_map_eq_ok hr
      exact { h with
        budget := fun y hy => Option.some.inj hy ▸ Document.isFinite_of_readScalar hx }
  | scale =>
      obtain ⟨x, hx, rfl⟩ := exists_of_map_eq_ok hr
      exact { h with
        scale := fun y hy => Option.some.inj hy ▸ Document.isFinite_of_readScalar hx }
  | schedule =>
      obtain ⟨s, hs, rfl⟩ := exists_of_map_eq_ok hr
      exact { h with
        builtIn := fun y hy => Option.some.inj hy ▸ Document.isBuiltIn_of_readSchedule hs }
  | seed =>
      obtain ⟨seed, -, rfl⟩ := exists_of_map_eq_ok hr
      exact { h with }

/-- One member, with a known key or another one. -/
theorem readMember (h : fs.Storable) {key : Option String} {d : Document}
    (hr : fs.readMember key d = .ok fs') : fs'.Storable := by
  unfold Fields.readMember at hr
  split at hr
  · cases hr
  · split at hr
    · split at hr
      · exact Except.ok.inj hr ▸ h
      · cases hr
    · split at hr
      · cases hr
      · exact h.read hr

/-- All members, by induction on those that are left. -/
theorem readMembers {ms : List (Option String × Document)} (h : fs.Storable)
    (hr : fs.readMembers ms = .ok fs') : fs'.Storable := by
  induction ms generalizing fs with
  | nil => exact Except.ok.inj hr ▸ h
  | cons m ms ih =>
      obtain ⟨next, hm, hr⟩ := exists_of_bind_eq_ok hr
      exact ih (h.readMember hm) hr

end Fields.Storable

namespace Tuning

theorem storable_of_readItems {items : List Document} {ending : Ending} {t : Tuning α}
    (h : readItems items ending = .ok t) : t.Storable := by
  unfold readItems at h
  split at h
  · cases h
  · obtain ⟨budget, hb, h⟩ := exists_of_bind_eq_ok h
    split at h
    · cases h
    · obtain ⟨scale, hk, h⟩ := exists_of_bind_eq_ok h
      split at h
      · cases h
      · obtain ⟨schedule, hs, h⟩ := exists_of_bind_eq_ok h
        split at h
        · cases h
        · obtain ⟨seed, -, h⟩ := exists_of_bind_eq_ok h
          split at h
          · obtain rfl := Except.ok.inj h
            exact ⟨Document.isBuiltIn_of_readSchedule hs, Document.isFinite_of_readScalar hb,
              Document.isFinite_of_readScalar hk⟩
          · cases h

/-- **Whatever the document, a tuning that is read from it is one that documents hold.** -/
theorem storable_of_ofDocument {d : Document} {t : Tuning α} (h : ofDocument d = .ok t) :
    t.Storable := by
  unfold ofDocument at h
  split at h
  · obtain ⟨fs, hfs, h⟩ := exists_of_bind_eq_ok h
    split at h
    · exact (Fields.Storable.empty.readMembers hfs).toTuning h
    · cases h
  · exact storable_of_readItems h
  · cases h

theorem storable_of_ofText {text : String} {t : Tuning α} (h : ofText text = .ok t) :
    t.Storable := by
  unfold ofText at h
  cases hd : Document.ofText text with
  | mk d isAll =>
      simp only [hd] at h
      obtain ⟨t', ht, h⟩ := exists_of_bind_eq_ok h
      cases isAll with
      | true => exact Except.ok.inj h ▸ storable_of_ofDocument ht
      | false => cases h

end Tuning

end

/-! ## §5. There and back -/

theorem Field.ofKey?_key (field : Field) : Field.ofKey? field.key = some field := by
  cases field <;> rfl

section
variable {α : Type} [NumeralCode α]

/-- A member that was written for a field is read into that field. -/
theorem Fields.readMember_key (fs : Fields α) (field : Field) (d : Document) :
    fs.readMember (some field.key) d
      = if fs.has field then .error (.duplicate field) else fs.read field d := by
  unfold Fields.readMember
  simp only [Field.ofKey?_key]

namespace Tuning

/-- A tuning is written unless its schedule is a custom one. -/
theorem toDocument_eq_error_iff (t : Tuning α) :
    (∃ fault, t.toDocument = .error fault) ↔ t.schedule.isBuiltIn = false := by
  obtain ⟨budget, scale, schedule, seed⟩ := t
  cases schedule with
  | exponential => exact iff_of_false (fun ⟨_, h⟩ => nomatch h) (fun h => nomatch h)
  | linear => exact iff_of_false (fun ⟨_, h⟩ => nomatch h) (fun h => nomatch h)
  | custom rule => exact iff_of_true ⟨_, rfl⟩ rfl

/-- **Reading what was written reads its two numbers**; the rest is as it was. -/
theorem ofDocument_of_toDocument {t : Tuning α} {d : Document} (h : t.toDocument = .ok d) :
    ofDocument d = (do
      let budget ← Document.readScalar (writeScalar t.budget)
      let scale ← Document.readScalar (writeScalar t.scale)
      .ok { t with budget, scale }) := by
  unfold toDocument at h
  cases hname : t.schedule.name? with
  | none =>
      simp only [hname] at h
      cases h
  | some name =>
      simp only [hname] at h
      obtain rfl := Except.ok.inj h
      have hschedule : (Document.text (some name)).readSchedule = .ok t.schedule :=
        Document.readScheduleName_of_name? hname
      have hseed := Document.readSeed_writeSeed (α := α) t.seed
      unfold ofDocument
      simp only [Fields.readMembers, Fields.readMember_key, Fields.has, Fields.read,
        Option.isSome_none, Bool.false_eq_true, if_false]
      -- the budget is read before the scale, and a fault of either ends the reading
      cases (Document.readScalar (writeScalar t.budget) : Except (ReadFault α) α) with
      | error fault => rfl
      | ok budget =>
          cases (Document.readScalar (writeScalar t.scale) : Except (ReadFault α) α) with
          | error fault => rfl
          | ok scale =>
              simp only [Except.map, bind, Except.bind, hschedule, hseed]
              rfl

end Tuning

end

section
variable {α : Type} [Scalar α]

namespace Tuning

/-- **If anything comes back, it is what was written**, and documents hold it. -/
theorem eq_of_ofDocument_toDocument [NumeralCode α] [LawfulNumerals α] {t t' : Tuning α}
    {d : Document} (h : t.toDocument = .ok d) (h' : ofDocument d = .ok t') :
    t' = t ∧ t.Storable := by
  have hread := ofDocument_of_toDocument h
  rw [h'] at hread
  obtain ⟨budget, hb, hread⟩ := exists_of_bind_eq_ok hread.symm
  obtain ⟨scale, hk, hread⟩ := exists_of_bind_eq_ok hread
  obtain ⟨-, rfl⟩ := Document.eq_of_readScalar_writeScalar hb
  obtain ⟨-, rfl⟩ := Document.eq_of_readScalar_writeScalar hk
  obtain rfl := Except.ok.inj hread
  exact ⟨rfl, storable_of_ofDocument h'⟩

/-- What documents hold comes back. -/
theorem Storable.ofDocument_toDocument [NumeralCode α] [LawfulNumerals α] {t : Tuning α}
    (h : t.Storable) : ∃ d, t.toDocument = .ok d ∧ ofDocument d = .ok t := by
  cases hd : t.toDocument with
  | error fault =>
      have hcustom := t.toDocument_eq_error_iff.mp ⟨fault, hd⟩
      rw [h.builtIn] at hcustom
      cases hcustom
  | ok d =>
      refine ⟨d, rfl, ?_⟩
      rw [ofDocument_of_toDocument hd, Document.readScalar_writeScalar h.budget,
        Document.readScalar_writeScalar h.scale]
      rfl

theorem Storable.check_ne_nonFiniteBudget {t : Tuning α} (h : t.Storable) (budget : α) :
    t.check ≠ .error (.nonFiniteBudget budget) := by
  unfold check
  rw [h.budget]
  split
  · exact fun heq => nomatch heq
  · rw [if_neg (by decide)]
    split <;> exact fun heq => nomatch heq

end Tuning

end

/-! ## §6. Doubles -/

namespace Tuning

/-- A fault about a number that documents hold is equal to itself, as it is not about NaN. -/
theorem Storable.sameResult_check {t : Tuning Float} (h : t.Storable) :
    sameResult t.check t.check = true := by
  have hbudget := Binary64.beq_self_of_isFinite h.budget
  have hscale := Binary64.beq_self_of_isFinite h.scale
  unfold check
  split
  · exact hbudget
  · split
    · exact hbudget
    · split
      · exact hscale
      · rfl

/-- **A tuning of doubles goes through a document and back exactly if it can.**  It is written
unless its schedule is a custom one; it comes back if in addition its numbers are finite, and then
bit for bit, whether or not it makes sense.  And whatever tuning is read from some document or
text comes back from its own document; its check never finds an infinite budget, and is the same
as itself. -/
theorem document_roundTrip (t : Tuning Float) :
    ((∃ fault, t.toDocument = .error fault) ↔ ∃ rule, t.schedule = .custom rule)
      ∧ ((∃ d, ∃ t' : Tuning Float, t.toDocument = .ok d ∧ ofDocument d = .ok t')
          ↔ (¬ ∃ rule, t.schedule = .custom rule)
            ∧ t.budget.isFinite = true ∧ t.scale.isFinite = true)
      ∧ (∀ d, ∀ t' : Tuning Float, t.toDocument = .ok d → ofDocument d = .ok t' → t' = t)
      ∧ ((∃ d, ofDocument d = .ok t) ∨ (∃ text, ofText text = .ok t) →
          (¬ ∃ rule, t.schedule = .custom rule)
            ∧ t.budget.isFinite = true ∧ t.scale.isFinite = true
            ∧ (∃ d, t.toDocument = .ok d ∧ ofDocument d = .ok t)
            ∧ (∀ budget, t.check ≠ .error (.nonFiniteBudget budget))
            ∧ sameResult t.check t.check = true) := by
  have hcustom := t.schedule.isBuiltIn_eq_false_iff
  have hbuiltIn : t.schedule.isBuiltIn = true ↔ ¬ ∃ rule, t.schedule = .custom rule := by
    rw [← hcustom, Bool.not_eq_false]
  refine ⟨t.toDocument_eq_error_iff.trans hcustom, ⟨?_, ?_⟩, ?_, ?_⟩
  · rintro ⟨d, t', h, h'⟩
    obtain ⟨-, hstorable⟩ := eq_of_ofDocument_toDocument h h'
    exact ⟨hbuiltIn.mp hstorable.builtIn, hstorable.budget, hstorable.scale⟩
  · rintro ⟨hrule, hbudget, hscale⟩
    have hstorable : t.Storable := ⟨hbuiltIn.mpr hrule, hbudget, hscale⟩
    obtain ⟨d, h, h'⟩ := hstorable.ofDocument_toDocument
    exact ⟨d, t, h, h'⟩
  · intro d t' h h'
    exact (eq_of_ofDocument_toDocument h h').1
  · intro hread
    have hstorable : t.Storable := by
      rcases hread with ⟨d, h⟩ | ⟨text, h⟩
      · exact storable_of_ofDocument h
      · exact storable_of_ofText h
    exact ⟨hbuiltIn.mp hstorable.builtIn, hstorable.budget, hstorable.scale,
      hstorable.ofDocument_toDocument, hstorable.check_ne_nonFiniteBudget,
      hstorable.sameResult_check⟩

/-- A zero with a sign for a budget, which the check refuses; the least double above zero for a
scale; and the greatest seed. -/
theorem document_roundTrip_extremes :
    let t : Tuning Float :=
      { budget := -0.0, scale := .ofBits 1, schedule := .linear, seed := some 0xffffffffffffffff }
    t.check = .error (.nonPositiveBudget (-0.0))
      ∧ ∃ d, t.toDocument = .ok d ∧ ofDocument d = .ok t := by
  intro t
  obtain ⟨-, hback, hsame, -⟩ := document_roundTrip t
  obtain ⟨d, t', h, h'⟩ := hback.mpr ⟨fun ⟨_, h⟩ => (nomatch h), by decide, by decide +kernel⟩
  refine ⟨if_pos (by decide), d, h, ?_⟩
  rw [h', hsame d t' h h']

end Tuning

end Annealing
