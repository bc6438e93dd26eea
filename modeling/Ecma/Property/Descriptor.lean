import Ecma.Value

set_option autoImplicit false

/-!
Property descriptors and definitions. A descriptor is what an object stores for a key; a definition
mentions some of the fields and is checked against the descriptor that is there before it takes
effect.
-/

namespace Ecma

/-- A stored property: a value, or a pair of functions that stand in for one. -/
inductive Descriptor where
  | data (value : Value) (writable enumerable configurable : Bool)
  | accessor (getter setter : Option ObjectId) (enumerable configurable : Bool)
deriving DecidableEq, Inhabited

namespace Descriptor

def enumerable : Descriptor → Bool
  | .data _ _ e _ => e
  | .accessor _ _ e _ => e

def configurable : Descriptor → Bool
  | .data _ _ _ c => c
  | .accessor _ _ _ c => c

def writable : Descriptor → Bool
  | .data _ w _ _ => w
  | .accessor _ _ _ _ => false

def isData : Descriptor → Bool
  | .data _ _ _ _ => true
  | .accessor _ _ _ _ => false

def value : Descriptor → Value
  | .data v _ _ _ => v
  | .accessor _ _ _ _ => .undefined

def getter : Descriptor → Option ObjectId
  | .data _ _ _ _ => none
  | .accessor g _ _ _ => g

def setter : Descriptor → Option ObjectId
  | .data _ _ _ _ => none
  | .accessor _ s _ _ => s

/-- The same property with another value; an accessor has none. -/
def withValue (v : Value) : Descriptor → Descriptor
  | .data _ w e c => .data v w e c
  | d => d

/-- What a built-in method is stored as: writable, configurable, hidden. -/
def hidden (v : Value) : Descriptor := .data v true false true

/-- Read-only, permanent and hidden. -/
def final (v : Value) : Descriptor := .data v false false false

/-- What an assignment creates: no restriction at all. -/
def free (v : Value) : Descriptor := .data v true true true

/-- Writable, but hidden and permanent. -/
def lasting (v : Value) : Descriptor := .data v true false false

/-- The values a descriptor holds on to. -/
def references : Descriptor → List Value
  | .data v _ _ _ => [v]
  | .accessor g s _ _ => g.toList.map .object ++ s.toList.map .object

end Descriptor

/-- The fields that a definition mentions. A mentioned getter or setter may be absent itself. -/
structure Definition where
  value : Option Value := none
  writable : Option Bool := none
  getter : Option (Option ObjectId) := none
  setter : Option (Option ObjectId) := none
  enumerable : Option Bool := none
  configurable : Option Bool := none
deriving DecidableEq, Inhabited

namespace Definition

/-- A definition that mentions every field of a descriptor. -/
def ofDescriptor : Descriptor → Definition
  | .data v w e c =>
    { value := some v, writable := some w, enumerable := some e, configurable := some c }
  | .accessor g s e c =>
    { getter := some g, setter := some s, enumerable := some e, configurable := some c }

/-- A definition of the value alone. -/
def ofValue (v : Value) : Definition :=
  { value := some v }

/-- Mentioning a value makes the definition one of a value: functions are forgotten. -/
def withValue (v : Value) (d : Definition) : Definition :=
  { d with value := some v, getter := d.getter.map fun _ => none, setter := d.setter.map fun _ => none }

def withWritable (w : Bool) (d : Definition) : Definition :=
  { d with writable := some w, getter := d.getter.map fun _ => none,
           setter := d.setter.map fun _ => none }

/-- Mentioning a function makes the definition one of functions: the value is forgotten. -/
def withGetter (g : Option ObjectId) (d : Definition) : Definition :=
  { d with getter := some g, value := d.value.map fun _ => .undefined,
           writable := d.writable.map fun _ => false }

def withSetter (s : Option ObjectId) (d : Definition) : Definition :=
  { d with setter := some s, value := d.value.map fun _ => .undefined,
           writable := d.writable.map fun _ => false }

def isData (d : Definition) : Bool :=
  d.value.isSome || d.writable.isSome

def isAccessor (d : Definition) : Bool :=
  d.getter.isSome || d.setter.isSome

/-- Says nothing that only one of the two kinds of property has. -/
def isGeneric (d : Definition) : Bool :=
  !d.isData && !d.isAccessor

def isEmpty (d : Definition) : Bool :=
  d.isGeneric && d.enumerable.isNone && d.configurable.isNone

/-- A mentioned field agrees with what is stored; a field not mentioned always does. -/
def agrees {α : Type} (same : α → α → Bool) (mentioned : Option α) (stored : α) : Bool :=
  match mentioned with
  | some a => same a stored
  | none => true

/-- Everything mentioned is already so. -/
def isWithin (d : Definition) (current : Descriptor) : Bool :=
  agrees (· == ·) d.enumerable current.enumerable &&
  agrees (· == ·) d.configurable current.configurable &&
  match current with
  | .data v w _ _ =>
    if d.isAccessor && !d.isData then false
    else agrees sameValue d.value v && agrees (· == ·) d.writable w
  | .accessor g s _ _ =>
    if d.isData then false
    else agrees (· == ·) d.getter g && agrees (· == ·) d.setter s

/-- What is stored for a key that was not there: fields not mentioned are false or absent. -/
def create (d : Definition) : Descriptor :=
  let enumerable := d.enumerable.getD false
  let configurable := d.configurable.getD false
  if d.isAccessor && !d.isData then
    .accessor (d.getter.getD none) (d.setter.getD none) enumerable configurable
  else .data (d.value.getD .undefined) (d.writable.getD false) enumerable configurable

/-- Whether a property that is there lets itself be changed so. -/
def mayChange (d : Definition) (current : Descriptor) : Bool :=
  current.configurable ||
    (d.configurable != some true && agrees (· == ·) d.enumerable current.enumerable &&
      (d.isGeneric ||
        (current.isData == d.isData &&
          match current with
          | .data v w _ _ => w || (d.writable != some true && agrees sameValue d.value v)
          | .accessor g s _ _ => agrees (· == ·) d.setter s && agrees (· == ·) d.getter g)))

/-- Turns a stored property into the kind that is defined, without a value or functions yet. -/
def reshape (d : Definition) (current : Descriptor) : Descriptor :=
  match current with
  | .data _ _ e c => if d.isAccessor then .accessor none none e c else current
  | .accessor _ _ e c => if d.isData then .data .undefined false e c else current

/-- Puts the mentioned fields in the place of the stored ones. -/
def apply (d : Definition) (current : Descriptor) : Descriptor :=
  match d.reshape current with
  | .data v w e c =>
    .data (d.value.getD v) (d.writable.getD w) (d.enumerable.getD e) (d.configurable.getD c)
  | .accessor g s e c =>
    .accessor (d.getter.getD g) (d.setter.getD s) (d.enumerable.getD e) (d.configurable.getD c)

end Definition

end Ecma
