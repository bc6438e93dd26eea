import Mathlib.Tactic.Common
import Ecma.Proofs.Number.Comparison
import Ecma.Property.Descriptor

set_option autoImplicit false

/-!
What can change about a property that is not configurable. A definition that such a property lets
through leaves its kind and its flags as they are, and a read-only value or a pair of functions whole.
-/

namespace Ecma

-- A definition says things about a value or about functions, never about both.
def Definition.OneKind (d : Definition) : Prop :=
  d.isData = true → d.isAccessor = false

namespace Descriptor

structure Keeps (d e : Descriptor) : Prop where
  configurable : e.configurable = false
  enumerable : e.enumerable = d.enumerable
  shape : e.isData = d.isData
  value : d.isData = true → d.writable = false → e.writable = false ∧ e.value = d.value
  functions : d.isData = false → e.getter = d.getter ∧ e.setter = d.setter

theorem keeps_refl (d : Descriptor) (fixed : d.configurable = false) : d.Keeps d := by
  exact ⟨fixed, rfl, rfl, fun _ readOnly => ⟨readOnly, rfl⟩, fun _ => ⟨rfl, rfl⟩⟩

theorem keeps_trans (d e f : Descriptor) (first : d.Keeps e) (second : e.Keeps f) : d.Keeps f := by
  refine ⟨second.configurable, second.enumerable.trans first.enumerable, second.shape.trans first.shape,
    fun isData readOnly => ?_, fun isAccessor => ?_⟩
  · have between := first.value isData readOnly
    have last := second.value (first.shape.trans isData) between.1
    exact ⟨last.1, last.2.trans between.2⟩
  · have between := first.functions isAccessor
    have last := second.functions (first.shape.trans isAccessor)
    exact ⟨last.1.trans between.1, last.2.trans between.2⟩

-- A value that can be written may change, and so may whether it can be written.
theorem keeps_writable (v v' : Value) (w e : Bool) :
    (Descriptor.data v true e false).Keeps (.data v' w e false) := by
  exact ⟨rfl, rfl, rfl, fun _ readOnly => absurd readOnly (by simp [writable]), fun other => absurd other (by simp [isData])⟩

theorem keeps_with_value (d : Descriptor) (v : Value) (fixed : d.configurable = false)
    (writable : d.writable = true) : d.Keeps (d.withValue v) := by
  cases d with
  | data old w e c =>
    cases fixed
    cases writable
    exact keeps_writable old v true e
  | accessor g s e c => cases writable

@[simp]
theorem with_value_configurable (d : Descriptor) (v : Value) :
    (d.withValue v).configurable = d.configurable := by
  cases d <;> rfl

@[simp]
theorem with_value_writable (d : Descriptor) (v : Value) : (d.withValue v).writable = d.writable := by
  cases d <;> rfl

end Descriptor

namespace Definition

-- Where nothing but what is there may be defined, defining changes nothing.
theorem within_of_may_change (d : Definition) (current : Descriptor) (fixed : current.configurable = false)
    (readOnly : current.writable = false) (may : d.mayChange current = true) :
    d.isWithin current = true := by
  cases current with
  | data v w e c =>
    simp only [Descriptor.configurable] at fixed
    simp only [Descriptor.writable] at readOnly
    subst fixed readOnly
    simp only [mayChange, isGeneric, Descriptor.configurable, Descriptor.enumerable, Descriptor.isData] at may
    rcases d with ⟨value, writable, getter, setter, enumerable, configurable⟩
    simp only [isData, isAccessor] at may
    simp only [isWithin, isData, isAccessor, Descriptor.configurable, Descriptor.enumerable]
    cases value <;> cases writable <;> cases getter <;> cases setter <;> cases configurable <;>
      simp_all [agrees]
  | accessor g s e c =>
    simp only [Descriptor.configurable] at fixed
    subst fixed
    simp only [mayChange, isGeneric, Descriptor.configurable, Descriptor.enumerable, Descriptor.isData] at may
    rcases d with ⟨value, writable, getter, setter, enumerable, configurable⟩
    simp only [isData, isAccessor] at may
    simp only [isWithin, isData, Descriptor.configurable, Descriptor.enumerable]
    cases value <;> cases writable <;> cases getter <;> cases setter <;> cases configurable <;>
      simp_all [agrees]

-- What a value that can be written becomes, if it is not configurable.
theorem apply_writable (d : Definition) (v stored : Value) (e : Bool) (oneKind : d.OneKind)
    (may : d.mayChange (.data v true e false) = true) :
    d.apply (.data stored true e false) = .data (d.value.getD stored) (d.writable.getD true) e false := by
  rcases d with ⟨value, writable, getter, setter, enumerable, configurable⟩
  simp only [OneKind, isData, isAccessor] at oneKind
  simp only [mayChange, isGeneric, isData, isAccessor, Descriptor.configurable, Descriptor.enumerable,
    Descriptor.isData] at may
  simp only [apply, reshape, isAccessor]
  cases value <;> cases writable <;> cases getter <;> cases setter <;> cases configurable <;>
    cases enumerable <;> simp_all [agrees]

-- A definition that changes something about a permanent property finds a value that can be written.
theorem change_is_writable (d : Definition) (current : Descriptor) (fixed : current.configurable = false)
    (may : d.mayChange current = true) (changes : ¬ (d.isEmpty || d.isWithin current) = true) :
    current.writable = true := by
  cases readOnly : current.writable with
  | true => rfl
  | false =>
    have within := d.within_of_may_change current fixed readOnly may
    exact absurd (by rw [within, Bool.or_true]) changes

-- What becomes of a permanent property when such a definition is applied to what is stored.
theorem apply_permanent (d : Definition) (current stored : Descriptor) (oneKind : d.OneKind)
    (fixed : stored.configurable = false)
    (alike : current = stored ∨ stored.writable = true ∧ ∃ v, current = stored.withValue v)
    (may : d.mayChange current = true) (changes : ¬ (d.isEmpty || d.isWithin current) = true) :
    ∃ v e, stored = .data v true e false ∧
      d.apply stored = .data (d.value.getD v) (d.writable.getD true) e false := by
  have same : current.configurable = stored.configurable ∧ current.writable = stored.writable := by
    rcases alike with same | ⟨_, v, same⟩
    · rw [same]
      exact ⟨rfl, rfl⟩
    · simp [same]
  have writable := change_is_writable d current (same.1.trans fixed) may changes
  rw [same.2] at writable
  cases stored with
  | accessor g s e c => cases writable
  | data v w e c =>
    cases fixed
    cases writable
    have shown : ∃ v', current = .data v' true e false := by
      rcases alike with same | ⟨_, v', same⟩
      · exact ⟨v, same⟩
      · exact ⟨v', same⟩
    obtain ⟨v', shown⟩ := shown
    rw [shown] at may
    exact ⟨v, e, rfl, apply_writable d v' v e oneKind may⟩

theorem with_value_accessor (d : Definition) (v : Value) : (d.withValue v).isAccessor = d.isAccessor := by
  simp [withValue, isAccessor]

theorem with_writable_accessor (d : Definition) (w : Bool) : (d.withWritable w).isAccessor = d.isAccessor := by
  simp [withWritable, isAccessor]

-- Nothing about functions, and no value but a number: what may be said about the length of an array.
structure Numeric (d : Definition) : Prop where
  isValue : d.isAccessor = false
  number : d.value = none ∨ ∃ x, d.value = some (.number x)

theorem Numeric.with_value (d : Definition) (numeric : d.Numeric) (x : Float) :
    (d.withValue (.number x)).Numeric := by
  exact ⟨(with_value_accessor d _).trans numeric.isValue, .inr ⟨x, rfl⟩⟩

theorem Numeric.with_writable (d : Definition) (numeric : d.Numeric) (w : Bool) : (d.withWritable w).Numeric := by
  exact ⟨(with_writable_accessor d w).trans numeric.isValue, numeric.number⟩

theorem apply_value (d : Definition) (v : Value) (w e c : Bool) (isValue : d.isAccessor = false) :
    d.apply (.data v w e c) =
      .data (d.value.getD v) (d.writable.getD w) (d.enumerable.getD e) (d.configurable.getD c) := by
  simp [apply, reshape, isValue]

theorem apply_stays_writable (d : Definition) (v : Value) (e c : Bool) (isValue : d.isAccessor = false)
    (writable : d.writable ≠ some false) : ∃ v' e' c', d.apply (.data v true e c) = .data v' true e' c' := by
  refine ⟨d.value.getD v, d.enumerable.getD e, d.configurable.getD c, ?_⟩
  have stays : d.writable.getD true = true := by
    cases given : d.writable with
    | none => rfl
    | some w => cases w with
      | true => rfl
      | false => exact absurd given writable
  simp [apply, reshape, isValue, stays]

end Definition

end Ecma

/-!
The rules for defining a property. They say which definitions a property lets through that is there, and
what it is afterwards: the fields that are mentioned are as mentioned, all others stay or are blank.
-/

namespace Ecma.Definition

/-! What is let through. -/

-- What may be said about a property that is not configurable.
structure Harmless (d : Definition) (current : Descriptor) : Prop where
  configurable : d.configurable ≠ some true
  enumerable : ∀ e, d.enumerable = some e → e = current.enumerable
  data : d.isData = true → current.isData = true
  accessor : d.isAccessor = true → current.isData = false
  writable : current.isData = true → current.writable = false → d.writable ≠ some true
  value : current.isData = true → current.writable = false → ∀ v, d.value = some v → v = current.value
  getter : current.isData = false → ∀ g, d.getter = some g → g = current.getter
  setter : current.isData = false → ∀ s, d.setter = some s → s = current.setter

def Allowed (d : Definition) (current : Descriptor) : Prop :=
  current.configurable = false → d.Harmless current

section

variable {α : Type}

theorem agrees_iff (same : α → α → Bool) (equal : ∀ a b, same a b = true ↔ a = b) (mentioned : Option α) (stored : α) :
    agrees same mentioned stored = true ↔ ∀ a, mentioned = some a → a = stored := by
  cases mentioned with
  | none => exact iff_of_true rfl (by rintro _ ⟨⟩)
  | some b => exact (equal b stored).trans ⟨fun is a here => Option.some.inj here ▸ is, fun all => all b rfl⟩

theorem agrees_equal [BEq α] [LawfulBEq α] (mentioned : Option α) (stored : α) :
    agrees (· == ·) mentioned stored = true ↔ ∀ a, mentioned = some a → a = stored := by
  exact agrees_iff _ (fun _ _ => beq_iff_eq) mentioned stored

theorem agrees_value (mentioned : Option Value) (stored : Value) :
    agrees sameValue mentioned stored = true ↔ ∀ v, mentioned = some v → v = stored := by
  exact agrees_iff _ Number.same_value_iff mentioned stored

end

section

variable (d : Definition) (oneKind : d.OneKind)

theorem not_data (other : d.isData = false) : d.value = none ∧ d.writable = none := by
  simpa [isData] using other

theorem not_accessor (other : d.isAccessor = false) : d.getter = none ∧ d.setter = none := by
  simpa [isAccessor] using other

include oneKind

-- What is said is about a value, about functions, or about neither.
theorem three_kinds : (d.isData = true ∧ d.isAccessor = false) ∨ (d.isData = false ∧ d.isAccessor = true) ∨
    (d.isData = false ∧ d.isAccessor = false) := by
  cases data : d.isData with
  | true => exact .inl ⟨rfl, oneKind data⟩
  | false =>
    cases d.isAccessor with
    | true => exact .inr (.inl ⟨rfl, rfl⟩)
    | false => exact .inr (.inr ⟨rfl, rfl⟩)

theorem may_change_data (v : Value) (w e : Bool) :
    d.mayChange (.data v w e false) = true ↔ d.Harmless (.data v w e false) := by
  simp only [mayChange, isGeneric, Descriptor.configurable, Descriptor.enumerable, Descriptor.isData, Bool.false_or,
    Bool.and_eq_true, Bool.or_eq_true, bne_iff_ne, agrees_equal, agrees_value, beq_iff_eq, Bool.not_eq_true']
  constructor
  · rintro ⟨⟨configurable, enumerable⟩, content⟩
    refine ⟨configurable, enumerable, fun _ => rfl, fun accessor => ?_, fun _ readOnly => ?_, fun _ readOnly => ?_,
      (by rintro ⟨⟩), (by rintro ⟨⟩)⟩
    · rcases content with ⟨_, other⟩ | ⟨data, _⟩
      · exact absurd accessor (other ▸ Bool.false_ne_true)
      · exact absurd accessor (oneKind data.symm ▸ Bool.false_ne_true)
    · rcases content with ⟨other, _⟩ | ⟨_, writable | kept⟩
      · rw [(not_data d other).2]
        rintro ⟨⟩
      · exact absurd (writable.symm.trans readOnly) (by decide)
      · exact kept.1
    · rcases content with ⟨other, _⟩ | ⟨_, writable | kept⟩
      · rw [(not_data d other).1]
        rintro _ ⟨⟩
      · exact absurd (writable.symm.trans readOnly) (by decide)
      · exact kept.2
  · intro harmless
    refine ⟨⟨harmless.configurable, harmless.enumerable⟩, ?_⟩
    rcases three_kinds d oneKind with ⟨data, _⟩ | ⟨_, accessor⟩ | ⟨other, other'⟩
    · refine .inr ⟨data.symm, ?_⟩
      cases w with
      | true => exact .inl rfl
      | false => exact .inr ⟨harmless.writable rfl rfl, harmless.value rfl rfl⟩
    · cases harmless.accessor accessor
    · exact .inl ⟨other, other'⟩

theorem may_change_accessor (g s : Option ObjectId) (e : Bool) :
    d.mayChange (.accessor g s e false) = true ↔ d.Harmless (.accessor g s e false) := by
  simp only [mayChange, isGeneric, Descriptor.configurable, Descriptor.enumerable, Descriptor.isData, Bool.false_or,
    Bool.and_eq_true, Bool.or_eq_true, bne_iff_ne, agrees_equal, beq_iff_eq, Bool.not_eq_true']
  constructor
  · rintro ⟨⟨configurable, enumerable⟩, content⟩
    refine ⟨configurable, enumerable, fun data => ?_, fun _ => rfl, (by rintro ⟨⟩), (by rintro ⟨⟩), fun _ => ?_, fun _ => ?_⟩
    · rcases content with ⟨other, _⟩ | ⟨other, _⟩
      · exact absurd data (other ▸ Bool.false_ne_true)
      · exact absurd (other.trans data) (by decide)
    · rcases content with ⟨_, other⟩ | ⟨_, kept⟩
      · rw [(not_accessor d other).1]
        rintro _ ⟨⟩
      · exact kept.2
    · rcases content with ⟨_, other⟩ | ⟨_, kept⟩
      · rw [(not_accessor d other).2]
        rintro _ ⟨⟩
      · exact kept.1
  · intro harmless
    refine ⟨⟨harmless.configurable, harmless.enumerable⟩, ?_⟩
    rcases three_kinds d oneKind with ⟨data, _⟩ | ⟨other, _⟩ | ⟨other, other'⟩
    · cases harmless.data data
    · exact .inr ⟨other.symm, harmless.setter rfl, harmless.getter rfl⟩
    · exact .inl ⟨other, other'⟩

theorem may_change_iff (current : Descriptor) : d.mayChange current = true ↔ d.Allowed current := by
  cases configurable : current.configurable with
  | true =>
    have may : d.mayChange current = true := by
      rw [mayChange.eq_def, configurable, Bool.true_or]
    exact iff_of_true may fun fixed => absurd (configurable.symm.trans fixed) (by decide)
  | false =>
    have all : d.Allowed current ↔ d.Harmless current := ⟨fun allowed => allowed configurable, fun harmless _ => harmless⟩
    rw [all]
    cases current with
    | data v w e c =>
      cases configurable
      exact may_change_data d oneKind v w e
    | accessor g s e c =>
      cases configurable
      exact may_change_accessor d oneKind g s e

end

/-! What a property is afterwards. -/

-- A field that is not mentioned stays what it was, and is blank if there was none.
structure Yields (d : Definition) (old : Option Descriptor) (new : Descriptor) : Prop where
  accessor : d.isAccessor = true → new.isData = false
  data : d.isData = true → new.isData = true
  shape : d.isAccessor = false → d.isData = false → new.isData = (old.map Descriptor.isData).getD true
  value : new.isData = true → new.value = d.value.getD ((old.map Descriptor.value).getD .undefined)
  writable : new.isData = true → new.writable = d.writable.getD ((old.map Descriptor.writable).getD false)
  getter : new.isData = false → new.getter = d.getter.getD ((old.bind Descriptor.getter))
  setter : new.isData = false → new.setter = d.setter.getD ((old.bind Descriptor.setter))
  enumerable : new.enumerable = d.enumerable.getD ((old.map Descriptor.enumerable).getD false)
  configurable : new.configurable = d.configurable.getD ((old.map Descriptor.configurable).getD false)

-- What is mentioned and what was there decide everything.
theorem yields_unique (d : Definition) (old : Option Descriptor) (a b : Descriptor) (first : d.Yields old a)
    (second : d.Yields old b) : a = b := by
  have shape : a.isData = b.isData := by
    cases accessor : d.isAccessor with
    | true => exact (first.accessor accessor).trans (second.accessor accessor).symm
    | false =>
      cases data : d.isData with
      | true => exact (first.data data).trans (second.data data).symm
      | false => exact (first.shape accessor data).trans (second.shape accessor data).symm
  have enumerable := first.enumerable.trans second.enumerable.symm
  have configurable := first.configurable.trans second.configurable.symm
  cases a with
  | data v w e c =>
    cases b with
    | data v' w' e' c' =>
      have value := (first.value rfl).trans (second.value rfl).symm
      have writable := (first.writable rfl).trans (second.writable rfl).symm
      cases value
      cases writable
      cases enumerable
      cases configurable
      rfl
    | accessor g' s' e' c' => cases shape
  | accessor g s e c =>
    cases b with
    | data v' w' e' c' => cases shape
    | accessor g' s' e' c' =>
      have getter := (first.getter rfl).trans (second.getter rfl).symm
      have setter := (first.setter rfl).trans (second.setter rfl).symm
      cases getter
      cases setter
      cases enumerable
      cases configurable
      rfl

section

variable (d : Definition) (oneKind : d.OneKind)

include oneKind

theorem create_yields : d.Yields none d.create := by
  rcases three_kinds d oneKind with ⟨data, other⟩ | ⟨other, accessor⟩ | ⟨other, other'⟩
  · have made : d.create = .data (d.value.getD .undefined) (d.writable.getD false) (d.enumerable.getD false)
        (d.configurable.getD false) := by
      simp [create, other]
    rw [made]
    refine ⟨fun accessor => ?_, fun _ => rfl, fun _ _ => rfl, fun _ => rfl, fun _ => rfl, (by rintro ⟨⟩), (by rintro ⟨⟩), rfl, rfl⟩
    exact absurd accessor (other ▸ Bool.false_ne_true)
  · have made : d.create = .accessor (d.getter.getD none) (d.setter.getD none) (d.enumerable.getD false)
        (d.configurable.getD false) := by
      simp [create, other, accessor]
    rw [made]
    refine ⟨fun _ => rfl, fun data => ?_, fun none => ?_, (by rintro ⟨⟩), (by rintro ⟨⟩), fun _ => rfl, fun _ => rfl, rfl, rfl⟩
    · exact absurd data (other ▸ Bool.false_ne_true)
    · exact absurd (accessor.symm.trans none) (by decide)
  · have made : d.create = .data (d.value.getD .undefined) (d.writable.getD false) (d.enumerable.getD false)
        (d.configurable.getD false) := by
      simp [create, other']
    rw [made]
    refine ⟨fun accessor => ?_, fun _ => rfl, fun _ _ => rfl, fun _ => rfl, fun _ => rfl, (by rintro ⟨⟩), (by rintro ⟨⟩), rfl, rfl⟩
    exact absurd accessor (other' ▸ Bool.false_ne_true)

theorem apply_yields (current : Descriptor) : d.Yields (some current) (d.apply current) := by
  cases current with
  | data v w e c =>
    rcases three_kinds d oneKind with ⟨_, other⟩ | ⟨other, accessor⟩ | ⟨other', other⟩
    · rw [apply_value d v w e c other]
      refine ⟨fun accessor => ?_, fun _ => rfl, fun _ _ => rfl, fun _ => rfl, fun _ => rfl, (by rintro ⟨⟩), (by rintro ⟨⟩), rfl, rfl⟩
      exact absurd accessor (other ▸ Bool.false_ne_true)
    · have made : d.apply (.data v w e c) = .accessor (d.getter.getD none) (d.setter.getD none)
          (d.enumerable.getD e) (d.configurable.getD c) := by
        simp [apply, reshape, accessor]
      rw [made]
      refine ⟨fun _ => rfl, fun data => ?_, fun none => ?_, (by rintro ⟨⟩), (by rintro ⟨⟩), fun _ => rfl, fun _ => rfl, rfl, rfl⟩
      · exact absurd data (other ▸ Bool.false_ne_true)
      · exact absurd (accessor.symm.trans none) (by decide)
    · rw [apply_value d v w e c other]
      refine ⟨fun accessor => ?_, fun _ => rfl, fun _ _ => rfl, fun _ => rfl, fun _ => rfl, (by rintro ⟨⟩), (by rintro ⟨⟩), rfl, rfl⟩
      exact absurd accessor (other ▸ Bool.false_ne_true)
  | accessor g s e c =>
    cases data : d.isData with
    | true =>
      have other := oneKind data
      have made : d.apply (.accessor g s e c) = .data (d.value.getD .undefined) (d.writable.getD false)
          (d.enumerable.getD e) (d.configurable.getD c) := by
        simp [apply, reshape, data]
      rw [made]
      refine ⟨fun accessor => ?_, fun _ => rfl, fun _ none => ?_, fun _ => rfl, fun _ => rfl, (by rintro ⟨⟩), (by rintro ⟨⟩), rfl, rfl⟩
      · exact absurd accessor (other ▸ Bool.false_ne_true)
      · exact absurd (data.symm.trans none) (by decide)
    | false =>
      have made : d.apply (.accessor g s e c) = .accessor (d.getter.getD g) (d.setter.getD s)
          (d.enumerable.getD e) (d.configurable.getD c) := by
        simp [apply, reshape, data]
      rw [made]
      refine ⟨fun _ => rfl, fun is => ?_, fun _ _ => rfl, (by rintro ⟨⟩), (by rintro ⟨⟩), fun _ => rfl, fun _ => rfl, rfl, rfl⟩
      exact absurd (data.symm.trans is) (by decide)

omit oneKind in
-- A mentioned field that is so already and one that is not mentioned leave what is there.
theorem stays {α : Type} (mentioned : Option α) (stored : α) (same : ∀ a, mentioned = some a → a = stored) :
    stored = mentioned.getD stored := by
  cases mentioned with
  | none => rfl
  | some a => exact (same a rfl).symm

-- What is said of a property where everything said is so.
structure Describes (d : Definition) (current : Descriptor) : Prop where
  accessor : d.isAccessor = true → current.isData = false
  data : d.isData = true → current.isData = true
  value : current.isData = true → ∀ v, d.value = some v → v = current.value
  writable : current.isData = true → ∀ w, d.writable = some w → w = current.writable
  getter : current.isData = false → ∀ g, d.getter = some g → g = current.getter
  setter : current.isData = false → ∀ s, d.setter = some s → s = current.setter
  enumerable : ∀ e, d.enumerable = some e → e = current.enumerable
  configurable : ∀ c, d.configurable = some c → c = current.configurable

omit oneKind in
theorem empty_describes (current : Descriptor) (empty : d.isEmpty = true) : d.Describes current := by
  simp only [isEmpty, isGeneric, Bool.and_eq_true, Bool.not_eq_true', Option.isNone_iff_eq_none] at empty
  obtain ⟨⟨⟨other, other'⟩, enumerable⟩, configurable⟩ := empty
  obtain ⟨value, writable⟩ := not_data d other
  obtain ⟨getter, setter⟩ := not_accessor d other'
  constructor <;> simp_all

theorem within_describes (current : Descriptor) (within : d.isWithin current = true) : d.Describes current := by
  cases current with
  | data v w e c =>
    simp only [isWithin, Descriptor.enumerable, Descriptor.configurable, Bool.and_eq_true, agrees_equal] at within
    obtain ⟨⟨enumerable, configurable⟩, content⟩ := within
    rcases three_kinds d oneKind with ⟨_, other⟩ | ⟨other, accessor⟩ | ⟨other, other'⟩
    · simp only [other, Bool.false_eq_true, false_and, if_false, Bool.and_eq_true, agrees_equal,
        agrees_value] at content
      refine ⟨fun accessor => ?_, fun _ => rfl, fun _ => content.1, fun _ => content.2, (by rintro ⟨⟩), (by rintro ⟨⟩), enumerable,
        configurable⟩
      exact absurd accessor (other ▸ Bool.false_ne_true)
    · simp [other, accessor] at content
    · obtain ⟨value, writable⟩ := not_data d other
      refine ⟨fun accessor => ?_, fun _ => rfl, fun _ => ?_, fun _ => ?_, (by rintro ⟨⟩), (by rintro ⟨⟩), enumerable, configurable⟩
      · exact absurd accessor (other' ▸ Bool.false_ne_true)
      · exact value ▸ (by rintro _ ⟨⟩)
      · exact writable ▸ (by rintro _ ⟨⟩)
  | accessor g s e c =>
    simp only [isWithin, Descriptor.enumerable, Descriptor.configurable, Bool.and_eq_true, agrees_equal] at within
    obtain ⟨⟨enumerable, configurable⟩, content⟩ := within
    cases data : d.isData with
    | true => simp [data] at content
    | false =>
      simp only [data, Bool.false_eq_true, if_false, Bool.and_eq_true, agrees_equal] at content
      refine ⟨fun _ => rfl, fun is => ?_, (by rintro ⟨⟩), (by rintro ⟨⟩), fun _ => content.1, fun _ => content.2, enumerable,
        configurable⟩
      exact absurd (data.symm.trans is) (by decide)

omit oneKind in
theorem describes_yields (current : Descriptor) (describes : d.Describes current) :
    d.Yields (some current) current := by
  refine ⟨describes.accessor, describes.data, fun _ _ => rfl, fun data => stays _ _ (describes.value data),
    fun data => stays _ _ (describes.writable data), fun other => stays _ _ (describes.getter other),
    fun other => stays _ _ (describes.setter other), stays _ _ describes.enumerable, stays _ _ describes.configurable⟩

omit oneKind in
theorem describes_allowed (current : Descriptor) (describes : d.Describes current) : d.Allowed current := by
  intro fixed
  refine ⟨fun given => ?_, describes.enumerable, describes.data, describes.accessor, fun data readOnly given => ?_,
    fun data _ => describes.value data, describes.getter, describes.setter⟩
  · exact absurd ((describes.configurable true given).trans fixed) (by decide)
  · exact absurd ((describes.writable data true given).trans readOnly) (by decide)

omit oneKind in
theorem own_describes (current : Descriptor) : (ofDescriptor current).isWithin current = true := by
  have value (v : Value) : sameValue v v = true := (Number.same_value_iff v v).mpr rfl
  cases current <;> simp [ofDescriptor, isWithin, isData, isAccessor, agrees, value, Descriptor.enumerable,
    Descriptor.configurable]

end

end Ecma.Definition
