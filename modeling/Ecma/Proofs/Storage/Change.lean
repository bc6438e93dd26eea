import Ecma.Proofs.Storage.Relation

set_option autoImplicit false

/-!
Changes that keep two heaps related: to an object, to a binding that lives in environments of both runs,
and to one that lives in a slot of the first.
-/

namespace Ecma.Storage

open Ecma.Program Ecma.Scope

section

variable (W : World) (live : List Link) (owed : List (EnvironmentId × String)) (h₁ h₂ : Heap)
  (related : HeapRelated W live owed h₁ h₂)
include related

/-! Objects. -/

theorem modify_object_related (id : ObjectId) (f₁ f₂ : Object → Object)
    (same : ∀ o₁ o₂, ObjectRelated W o₁ o₂ → ObjectRelated W (f₁ o₁) (f₂ o₂))
    (fewer : ∀ (o : Object) i a, (f₂ o).kind.mapped.lookup i = some a → o.kind.mapped.lookup i = some a)
    (plain : ∀ o : Object, o.kind = .ordinary → (f₂ o).kind = .ordinary) :
    HeapRelated W live owed (h₁.modifyObject id f₁) (h₂.modifyObject id f₂) :=
  { related with
    objects := by
      rw [Heap.size_modify, Heap.size_modify]
      exact related.objects
    object := by
      intro other
      rw [Heap.object_modify, Heap.object_modify, related.objects]
      split
      · exact same _ _ (related.object other)
      · exact related.object other
    tethered := by
      refine tethered_kept owed owed h₂ _ related.tethered (fun other i a mapped => ?_)
        (fun e name binding found state => ⟨binding, found, state⟩) fun e still => Or.inl still
      rw [Heap.alias_mapped, Heap.object_modify] at mapped
      rw [Heap.alias_mapped]
      split at mapped
      · exact fewer _ i a mapped
      · exact mapped
    home := by
      rw [Heap.kind, Heap.object_modify, Heap.size_modify]
      refine ⟨?_, related.home.2⟩
      split
      · exact plain _ related.home.1
      · exact related.home.1 }

theorem modify_properties_related (id : ObjectId) (f : PropertyTable → PropertyTable) :
    HeapRelated W live owed (h₁.modifyProperties id f) (h₂.modifyProperties id f) := by
  refine modify_object_related W live owed h₁ h₂ related id _ _ (fun o₁ o₂ same => ?_) (fun _ _ _ found => found)
    fun _ ordinary => ordinary
  exact { same with properties := congrArg f same.properties }

theorem prevent_related (id : ObjectId) :
    HeapRelated W live owed (h₁.preventExtensions id) (h₂.preventExtensions id) := by
  refine modify_object_related W live owed h₁ h₂ related id _ _ (fun o₁ o₂ same => ?_) (fun _ _ _ found => found)
    fun _ ordinary => ordinary
  exact { same with extensible := rfl }

theorem add_object_related (o₁ o₂ : Object) (same : ObjectRelated W o₁ o₂)
    (tethered : Tethered owed (h₂.addObject o₂).2) :
    HeapRelated W live owed (h₁.addObject o₁).2 (h₂.addObject o₂).2 :=
  { related with
    objects := by
      change (h₁.objects.push o₁).size = (h₂.objects.push o₂).size
      rw [Array.size_push, Array.size_push, related.objects]
    object := by
      intro other
      rw [Heap.object_add, Heap.object_add, related.objects]
      split
      · exact same
      · exact related.object other
    tethered := tethered
    home := by
      have known := related.home.2
      rw [Heap.kind, Heap.object_add, if_neg (Nat.ne_of_lt known)]
      exact ⟨related.home.1, Nat.lt_trans known (Array.size_push o₂ ▸ Nat.lt_succ_self _)⟩ }

-- A new object whose elements stand for nothing.
theorem add_plain_related (o₁ o₂ : Object) (same : ObjectRelated W o₁ o₂) (plain : o₂.kind.mapped = []) :
    HeapRelated W live owed (h₁.addObject o₁).2 (h₂.addObject o₂).2 := by
  refine add_object_related W live owed h₁ h₂ related o₁ o₂ same ?_
  refine tethered_kept owed owed h₂ _ related.tethered (fun id i a mapped => ?_)
    (fun e name binding found state => ⟨binding, found, state⟩) fun e still => Or.inl still
  rw [Heap.alias_mapped, Heap.object_add] at mapped
  rw [Heap.alias_mapped]
  split at mapped
  · rw [plain] at mapped
    cases mapped
  · exact mapped

omit related in
theorem filter_pairs (mapped₁ mapped₂ : List (Nat × Alias)) (i : Nat)
    (pairs : List.Forall₂ (fun a b => a.1 = b.1 ∧ AliasRelated W a.2 b.2) mapped₁ mapped₂) :
    List.Forall₂ (fun a b => a.1 = b.1 ∧ AliasRelated W a.2 b.2)
      (mapped₁.filter fun entry => entry.1 != i) (mapped₂.filter fun entry => entry.1 != i) := by
  induction pairs with
  | nil => exact .nil
  | cons both _ hyp =>
    rw [List.filter_cons, List.filter_cons, both.1]
    split
    · exact .cons both hyp
    · exact hyp

theorem unmap_related (id : ObjectId) (key : PropertyKey) :
    HeapRelated W live owed (h₁.unmap id key) (h₂.unmap id key) := by
  cases key with
  | name s => exact related
  | index i =>
    refine modify_object_related W live owed h₁ h₂ related id _ _ (fun o₁ o₂ same => ?_) (fun o j a found =>
      (Heap.unmapped_lookup i j a o found).2) fun o ordinary => by rw [ordinary]; exact ordinary
    obtain ⟨kind₁, prototype₁, extensible₁, properties₁⟩ := o₁
    obtain ⟨kind₂, prototype₂, extensible₂, properties₂⟩ := o₂
    obtain ⟨kinds, prototypes, extensibles, tables⟩ := same
    dsimp only at kinds prototypes extensibles tables
    cases kinds with
    | plain _ plain =>
      cases kind₁ with
      | arguments mapped => cases plain
      | _ => exact ⟨.plain _ plain, prototypes, extensibles, tables⟩
    | script t text code outer e₁ e₂ formed fitted chain =>
      exact ⟨.script t text code outer e₁ e₂ formed fitted chain, prototypes, extensibles, tables⟩
    | arguments mapped₁ mapped₂ pairs =>
      exact ⟨.arguments _ _ (filter_pairs W mapped₁ mapped₂ i pairs), prototypes, extensibles, tables⟩

end

/-! Bindings. -/

-- What a change of a binding may do to what is known for good.
structure Admits (shape : Shape) (name : String) (f : Bindings → Bindings) : Prop where
  concerns : Bindings.Concerns f name
  upper : ∀ names, shape.upper = some names → name ∈ names ∨
    ∀ b, Dictionary.has b name = false → Dictionary.has (f b) name = false
  kept : ∀ (b : Bindings) binding, Dictionary.find? b name = some binding →
    binding.state = .lasting ∨ binding.state = .constant →
    ∃ after, Dictionary.find? (f b) name = some after ∧ after.state = binding.state
  fixed : ∀ b, Bindings.ConstantOnly (· ∈ shape.fixed) b → Bindings.ConstantOnly (· ∈ shape.fixed) (f b)

-- What is owed before and after a change of a binding.
structure Pays (owed left : List (EnvironmentId × String)) (e : EnvironmentId) (name : String)
    (f : Bindings → Bindings) : Prop where
  fewer : ∀ entry ∈ left, entry ∈ owed ∧ entry ≠ (e, name)
  paid : ∀ entry ∈ owed, entry ∈ left ∨ (entry = (e, name) ∧ ∀ b, Dictionary.find? b name = none →
    ∃ binding, Dictionary.find? (f b) name = some binding ∧ (binding.state = .lasting ∨ binding.state = .constant))

theorem pays_nothing (e : EnvironmentId) (name : String) (f : Bindings → Bindings) : Pays [] [] e name f := by
  exact ⟨fun _ none => (by cases none), fun _ none => (by cases none)⟩

section

variable (shape : Shape) (owed left : List (EnvironmentId × String)) (e : EnvironmentId) (name : String)
  (f : Bindings → Bindings) (pays : Pays owed left e name f)
include pays

theorem admits_describes (b : Bindings) (admits : Admits shape name f)
    (describes : shape.Describes (fun other => (e, other) ∈ owed) (.declarative b)) :
    shape.Describes (fun other => (e, other) ∈ left) (.declarative (f b)) := by
  cases shape with
  | object id receiver => cases describes
  | bindings hidden upper lower fixed =>
    obtain ⟨b', same, above, below, absent, fixed⟩ := describes
    cases same
    refine ⟨f b, rfl, fun names found other has => ?_, fun other member due => ?_, fun other member due => ?_,
      admits.fixed b fixed⟩
    · by_cases here : name = other
      · subst here
        rcases admits.upper names found with member | missing
        · exact member
        · cases before : Dictionary.has b name with
          | true => exact above names found name before
          | false =>
            rw [missing b before] at has
            cases has
      · rw [Dictionary.has, admits.concerns.others b other here] at has
        exact above names found other has
    · by_cases before : (e, other) ∈ owed
      · rcases pays.paid _ before with still | ⟨same, bound⟩
        · exact absurd still due
        · cases same
          exact bound b (absent name member before)
      · obtain ⟨binding, found, state⟩ := below other member before
        by_cases here : name = other
        · subst here
          obtain ⟨after, present, same⟩ := admits.kept b binding found state
          exact ⟨after, present, by rw [same]; exact state⟩
        · exact ⟨binding, (admits.concerns.others b other here).trans found, state⟩
    · obtain ⟨before, distinct⟩ := pays.fewer _ due
      have here : name ≠ other := fun same => distinct (by rw [same])
      exact (admits.concerns.others b other here).trans (absent other member before)

-- What is owed of other environments stays so.
theorem describes_elsewhere (other : EnvironmentId) (record : EnvironmentRecord) (distinct : e ≠ other)
    (describes : shape.Describes (fun name => (other, name) ∈ owed) record) :
    shape.Describes (fun name => (other, name) ∈ left) record := by
  cases shape with
  | object id receiver => exact describes
  | bindings hidden upper lower fixed =>
    obtain ⟨b, same, above, below, absent, fixed⟩ := describes
    refine ⟨b, same, above, fun name member due => below name member fun before => ?_,
      fun name member due => absent name member (pays.fewer _ due).1, fixed⟩
    rcases pays.paid _ before with still | ⟨same, _⟩
    · exact due still
    · cases same
      exact distinct rfl

end

theorem write_admits (shape : Shape) (name : String) (v : Value) :
    Admits shape name (fun b => Bindings.write b name v) := by
  refine ⟨Bindings.write_concerns name v, fun names _ => Or.inr fun b absent => ?_, fun b binding found _ => ?_,
    fun b only => Bindings.write_constants _ b only name v⟩
  · unfold Dictionary.has Bindings.write at *
    rw [Dictionary.find_modify, if_pos rfl]
    cases found : Dictionary.find? b name with
    | none => rfl
    | some binding =>
      rw [found] at absent
      cases absent
  · rw [Bindings.write, Dictionary.find_modify, if_pos rfl, found]
    refine ⟨_, rfl, ?_⟩
    dsimp only
    split <;> rfl

theorem create_admits (shape : Shape) (name : String) (deletable : Bool)
    (free : ∀ names, shape.upper = some names → name ∈ names) :
    Admits shape name (fun b => Bindings.createMutable b name deletable) := by
  refine ⟨Bindings.create_mutable_concerns name deletable, fun names found => Or.inl (free names found),
    fun b binding found _ => ⟨binding, ?_, rfl⟩, fun b only => Bindings.create_mutable_constants _ b only name deletable⟩
  rw [Bindings.createMutable, Bindings.create, Dictionary.has, found]
  exact found

theorem delete_admits (shape : Shape) (name : String) : Admits shape name (fun b => Bindings.delete b name) := by
  refine ⟨Bindings.delete_concerns name, fun names _ => Or.inr fun b absent => ?_,
    fun b binding found state => ⟨binding, ?_, rfl⟩, fun b only => Bindings.delete_constants _ b only name⟩
  · unfold Dictionary.has at *
    have none : Dictionary.find? b name = none := Option.not_isSome_iff_eq_none.mp (by rw [absent]; exact Bool.false_ne_true)
    rw [Bindings.delete]
    split
    · rw [Dictionary.erase_absent b name none]
      exact absent
    · exact absent
  · have stays : Bindings.canDelete b name = false := by
      rw [Bindings.canDelete, Bindings.state?, found]
      rcases state with state | state
      · change decide (binding.state = .deletable) = false
        rw [state]
        rfl
      · change decide (binding.state = .deletable) = false
        rw [state]
        rfl
    rw [Bindings.delete, stays]
    exact found

theorem admits_comp (shape : Shape) (name : String) (f g : Bindings → Bindings) (first : Admits shape name f)
    (second : Admits shape name g) : Admits shape name (fun b => g (f b)) := by
  refine ⟨Bindings.concerns_comp f g name first.concerns second.concerns, fun names found => ?_,
    fun b binding found state => ?_, fun b only => second.fixed _ (first.fixed b only)⟩
  · rcases first.upper names found with member | absent
    · exact Or.inl member
    · rcases second.upper names found with member | absent'
      · exact Or.inl member
      · exact Or.inr fun b none => absent' _ (absent b none)
  · obtain ⟨between, present, same⟩ := first.kept b binding found state
    obtain ⟨after, present', same'⟩ := second.kept _ between present (by rw [same]; exact state)
    exact ⟨after, present', same'.trans same⟩

section

variable (W : World) (live : List Link) (owed left : List (EnvironmentId × String)) (h₁ h₂ : Heap)
  (related : HeapRelated W live owed h₁ h₂)
include related

omit left in
theorem link_placed (l : Link) (member : l ∈ W.links ++ live) :
    (∃ kind, W.Placed kind l) := by
  rcases List.mem_append.mp member with permanent | temporary
  · exact ⟨_, related.placed l permanent⟩
  · exact ⟨_, related.placed_live l temporary⟩

-- What elements stand for is still there when a binding has changed.
theorem change_tethered (e : EnvironmentId) (info : Info) (name : String) (f : Bindings → Bindings)
    (found : W.Has e info) (admits : Admits info.shape name f) (pays : Pays owed left e name f) :
    Tethered left (h₂.modifyBindings e f) := by
  refine tethered_kept owed left h₂ _ related.tethered (fun _ _ _ => id) (fun g other binding there state => ?_)
    fun g still => Or.inl (pays.fewer _ still).1
  have known : e < h₂.environments.size := by
    rw [related.environments]
    exact (List.getElem?_eq_some_iff.mp found).1
  by_cases same : e = g ∧ name = other
  · obtain ⟨rfl, rfl⟩ := same
    obtain ⟨b, record, there⟩ := Heap.binding_record h₂ e name binding there
    obtain ⟨after, there', state'⟩ := admits.kept b binding there (Or.inl state)
    refine ⟨after, ?_, state'.trans state⟩
    rw [Heap.binding?, Heap.bindings_modify h₂ e e f known, if_pos rfl, Heap.bindings?, record]
    exact there'
  · exact ⟨binding, (Heap.binding_modify_other h₂ e g name other f admits.concerns known same).trans there, state⟩

-- A link is about one binding.
theorem link_elsewhere (e₂ : EnvironmentId) (name : String) (f : Bindings → Bindings)
    (pays : Pays owed left e₂ name f) (concerns : Bindings.Concerns f name) (known : e₂ < h₂.environments.size)
    (l : Link) (member : l ∈ W.links ++ live) (distinct : ¬ (e₂ = l.env ∧ name = l.name)) :
    LinkRelated left h₁ (h₂.modifyBindings e₂ f) l := by
  obtain ⟨value, state⟩ := related.link l member
  have binding := Heap.binding_modify_other h₂ e₂ l.env name l.name f concerns known distinct
  refine ⟨?_, fun due => ?_⟩
  · rw [Heap.read_binding, binding, ← Heap.read_binding]
    exact value
  · rw [binding]
    refine state fun before => ?_
    rcases pays.paid _ before with still | ⟨same, _⟩
    · exact due still
    · exact distinct ⟨(Prod.mk.inj same).1.symm, (Prod.mk.inj same).2.symm⟩

/-- A binding that lives in environments of both runs changes. What was owed of it is paid by the
change. -/
theorem change_shown_related (e₁ e₂ : EnvironmentId) (info : Info) (name : String)
    (f : Bindings → Bindings) (found : W.Has e₂ info) (twin : info.twin = some e₁)
    (shown : name ∉ info.shape.hidden) (admits : Admits info.shape name f) (pays : Pays owed left e₂ name f) :
    HeapRelated W live left (h₁.modifyBindings e₁ f) (h₂.modifyBindings e₂ f) := by
  have known : e₂ < h₂.environments.size := by
    rw [related.environments]
    exact (List.getElem?_eq_some_iff.mp found).1
  refine { related with
    environments := ?_, environment := ?_, link := ?_
    tethered := change_tethered W live owed left h₁ h₂ related e₂ info name f found admits pays }
  · rw [Heap.environments_size_modify]
    exact related.environments
  · intro g₂ other there
    obtain ⟨record, environment⟩ := related.environment g₂ other there
    by_cases here : e₂ = g₂
    · subst here
      cases Option.some.inj (found.symm.trans there)
      cases record with
      | object id receiver =>
        refine ⟨.object id receiver, ?_, fun g₁ twin' => ?_, environment.less₁, environment.less₂, ?_⟩
        · exact Heap.record_modify h₂ e₂ f id receiver _ environment.second
        · cases Option.some.inj (twin.symm.trans twin')
          exact Heap.record_modify h₁ e₁ f id receiver _ (environment.first e₁ twin)
        · have describes := environment.describes
          generalize info.shape = shape at describes
          cases shape with
          | object id' receiver' => exact describes
          | bindings hidden upper lower fixed =>
            obtain ⟨b, contra, _⟩ := describes
            cases contra
      | declarative b =>
        refine ⟨.declarative (f b), ?_, fun g₁ twin' => ?_, environment.less₁, environment.less₂, ?_⟩
        · exact Heap.environment_modify_same h₂ e₂ f b _ environment.second
        · cases Option.some.inj (twin.symm.trans twin')
          rw [Heap.environment_modify_same h₁ e₁ f _ _ (environment.first e₁ twin)]
          rw [without, admits.concerns.shown b _ shown]
        · exact admits_describes _ owed left e₂ name f pays b admits environment.describes
    · refine ⟨record, ?_, fun g₁ twin' => ?_, environment.less₁, environment.less₂, ?_⟩
      · rw [Heap.environment_modify_other h₂ e₂ g₂ f here]
        exact environment.second
      · rw [Heap.environment_modify_other h₁ e₁ g₁ f]
        · exact environment.first g₁ twin'
        · intro same
          subst same
          exact here (related.apart e₁ e₂ g₂ info other found there twin twin')
      · exact describes_elsewhere _ owed left e₂ name f pays g₂ record here environment.describes
  · intro l member
    have distinct : ¬ (e₂ = l.env ∧ name = l.name) := by
      rintro ⟨same, named⟩
      obtain ⟨other, there, hidden, _⟩ := (link_placed W live owed h₁ h₂ related l member).choose_spec.env
      rw [← same] at there
      cases Option.some.inj (found.symm.trans there)
      rw [← named] at hidden
      exact shown hidden
    exact link_elsewhere W live owed left h₁ h₂ related e₂ name f pays admits.concerns known l member distinct

omit left in
theorem link_inside (l : Link) (member : l ∈ W.links ++ live) :
    ∃ slots, h₁.frames[l.frame]? = some slots ∧ l.slot < slots.size := by
  obtain ⟨kind, placed⟩ := link_placed W live owed h₁ h₂ related l member
  obtain ⟨t, code, frame, formed, _, owner, slot⟩ := placed.owner
  obtain ⟨slots, there, size⟩ := related.frame l.frame t code frame
  have analysed := Tree.analyze_analysed t formed true
  have below := (analysed.slotted.found l.scope l.name l.slot slot).2.2.2
  rw [← (analysed.alike l.scope).code, owner, ← size] at below
  exact ⟨slots, there, below⟩

omit left in
theorem alias_live (a₁ a₂ : Alias) (alike : AliasRelated W a₁ a₂)
    (lasting : ∃ e name binding, a₂ = .binding e name ∧ h₂.binding? e name = some binding ∧ binding.state = .lasting) :
    h₁.Live a₁ := by
  cases alike with
  | slot l member state => exact link_inside W live owed h₁ h₂ related l (List.mem_append_left _ member)
  | binding e₁ e₂ name twins =>
    obtain ⟨_, _, binding, same, found, state⟩ := lasting
    cases same
    refine ⟨binding, ?_, by rw [state]; rfl⟩
    obtain ⟨b, record, found⟩ := Heap.binding_record h₂ _ _ binding found
    rcases twins_bindings W live owed h₁ h₂ related name e₁ e₂ twins with
      ⟨id, receiver, _, second⟩ | ⟨b₁, b₂, first, second, same⟩
    · cases record.symm.trans second
    · cases record.symm.trans second
      rw [Heap.binding?, Heap.bindings?, first]
      exact same.trans found

omit left in
theorem alias_injective (a₁ a₂ b₂ : Alias) (first : AliasRelated W a₁ a₂) (second : AliasRelated W a₁ b₂) : a₂ = b₂ := by
  cases first with
  | slot l member state =>
    generalize a : Alias.slot l.frame l.slot = a₁ at second
    cases second with
    | slot k member' state' =>
      obtain ⟨frames, slots⟩ := Alias.slot.inj a
      rw [related.slots l (List.mem_append_left _ member) k (List.mem_append_left _ member') frames slots]
    | binding e₁ e₂ name twins => cases a
  | binding e₁ e₂ name twins =>
    cases second with
    | binding _ f₂ _ twins' =>
      obtain ⟨info, found, twin, _⟩ := twins
      obtain ⟨other, found', twin', _⟩ := twins'
      rw [related.apart e₁ e₂ f₂ info other found found' twin twin']

omit left in
/-- In both runs, elements of arguments objects stand for places of their own. -/
theorem related_tied : h₁.Tied ∧ h₂.Tied := by
  have partner (id : ObjectId) (i : Nat) (a₁ : Alias) (mapped : h₁.alias? id (.index i) = some a₁) :
      ∃ a₂, h₂.alias? id (.index i) = some a₂ ∧ AliasRelated W a₁ a₂ := by
    rcases alias_related W live owed h₁ h₂ related id (.index i) with ⟨none, _⟩ | ⟨_, a₂, first, second, alike⟩
    · cases mapped.symm.trans none
    · cases mapped.symm.trans first
      exact ⟨a₂, second, alike⟩
  refine ⟨⟨fun id i a mapped => ?_, fun id id' i i' a first second => ?_⟩,
    ⟨fun id i a mapped => ?_, related.tethered.own⟩⟩
  · obtain ⟨a₂, mapped', alike⟩ := partner id i a mapped
    obtain ⟨e, name, binding, same, found, state, _⟩ := related.tethered.lasting id i a₂ mapped'
    exact alias_live W live owed h₁ h₂ related a a₂ alike ⟨e, name, binding, same, found, state⟩
  · obtain ⟨a₂, first', alike⟩ := partner id i a first
    obtain ⟨b₂, second', alike'⟩ := partner id' i' a second
    cases alias_injective W live owed h₁ h₂ related a a₂ b₂ alike alike'
    exact related.tethered.own id id' i i' a₂ first' second'
  · obtain ⟨e, name, binding, rfl, found, state, _⟩ := related.tethered.lasting id i a mapped
    exact ⟨binding, found, by rw [state]; rfl⟩

omit left in
theorem frame_set_related (frame index : Nat) (v : Value) (f : Nat) (t : Scope.Tree) (code : Nat)
    (found : W.frames[f]? = some (t, code)) : ∃ slots, (h₁.setSlot frame index v).frames[f]? = some slots ∧
      slots.size = ((t.analyze true).code code).slots := by
  obtain ⟨slots, there, size⟩ := related.frame f t code found
  obtain ⟨after, there, same⟩ := Heap.frame_set h₁ frame f index v slots there
  exact ⟨after, there, same.trans size⟩

/-- A binding changes that lives in a slot of the first run. -/
theorem change_hidden_related (l : Link) (v : Value) (f : Bindings → Bindings) (member : l ∈ W.links ++ live)
    (admits : ∀ info, W.Has l.env info → Admits info.shape l.name f)
    (written : ∀ b, ((l.env, l.name) ∈ owed → Dictionary.find? b l.name = none) →
      ((l.env, l.name) ∉ owed → ∃ binding, Dictionary.find? b l.name = some binding ∧ binding.state = l.state) →
      Dictionary.find? (f b) l.name = some ⟨v, l.state⟩)
    (pays : Pays owed left l.env l.name f) :
    HeapRelated W live left (h₁.setSlot l.frame l.slot v) (h₂.modifyBindings l.env f) := by
  obtain ⟨kind, placed⟩ := link_placed W live owed h₁ h₂ related l member
  obtain ⟨info, found, hidden, bound⟩ := placed.env
  obtain ⟨record, here⟩ := related.environment l.env info found
  have admits := admits info found
  have known : l.env < h₂.environments.size := by
    rw [related.environments]
    exact (List.getElem?_eq_some_iff.mp found).1
  -- The environment has bindings, for the name is one of them.
  obtain ⟨b, same, missing⟩ : ∃ b, record = .declarative b ∧
      ((l.env, l.name) ∈ owed → Dictionary.find? b l.name = none) := by
    have describes := here.describes
    generalize info.shape = shape at describes hidden bound
    cases shape with
    | object id receiver => cases hidden
    | bindings hidden upper lower fixed =>
      obtain ⟨b, same, _, _, absent, _⟩ := describes
      exact ⟨b, same, absent l.name bound⟩
  subst same
  have after : Dictionary.find? (f b) l.name = some ⟨v, l.state⟩ := by
    refine written b missing fun due => ?_
    obtain ⟨binding, there, state⟩ := (related.link l member).2 due
    rw [Heap.binding_of h₂ l.env b _ l.name here.second] at there
    exact ⟨binding, there, state⟩
  refine { related with
    frames₁ := ?_, frame := ?_, environments := ?_, environment := ?_, link := ?_
    tethered := change_tethered W live owed left h₁ h₂ related l.env info l.name f found admits pays }
  · rw [Heap.frames_size_set]
    exact related.frames₁
  · exact frame_set_related W live owed h₁ h₂ related l.frame l.slot v
  · rw [Heap.environments_size_modify]
    exact related.environments
  · intro g₂ other there
    by_cases same : l.env = g₂
    · subst same
      cases Option.some.inj (found.symm.trans there)
      refine ⟨.declarative (f b), ?_, fun g₁ twin => ?_, here.less₁, here.less₂, ?_⟩
      · exact Heap.environment_modify_same h₂ l.env f b _ here.second
      · rw [without, admits.concerns.unseen b _ hidden]
        exact here.first g₁ twin
      · exact admits_describes _ owed left l.env l.name f pays b admits here.describes
    · obtain ⟨record, environment⟩ := related.environment g₂ other there
      refine ⟨record, ?_, environment.first, environment.less₁, environment.less₂, ?_⟩
      · rw [Heap.environment_modify_other h₂ l.env g₂ f same]
        exact environment.second
      · exact describes_elsewhere _ owed left l.env l.name f pays g₂ record same environment.describes
  · intro k there
    by_cases same : l = k
    · subst same
      obtain ⟨slots, frame, inside⟩ := link_inside W live owed h₁ h₂ related l member
      have binding := Heap.binding_modify_same h₂ l.env l.name f b _ here.second
      refine ⟨?_, fun _ => ⟨_, binding.trans after, rfl⟩⟩
      rw [Heap.read_binding, binding, after]
      exact Heap.slot_set_same h₁ l.frame l.slot v slots frame inside
    · have elsewhere : ¬ (l.frame = k.frame ∧ l.slot = k.slot) := by
        rintro ⟨frames, slots⟩
        exact same (related.slots l member k there frames slots)
      have distinct : ¬ (l.env = k.env ∧ l.name = k.name) := by
        rintro ⟨envs, names⟩
        exact same (related.names l member k there envs names)
      obtain ⟨value, state⟩ :=
        link_elsewhere W live owed left h₁ h₂ related l.env l.name f pays admits.concerns known k there distinct
      refine ⟨?_, state⟩
      rw [Heap.slot_set_other h₁ _ _ _ _ v elsewhere]
      exact value

omit left in
/-- A slot changes that no link is about. -/
theorem set_free_related (frame index : Nat) (v : Value)
    (free : ∀ l ∈ W.links ++ live, l.frame = frame → l.slot ≠ index) :
    HeapRelated W live owed (h₁.setSlot frame index v) h₂ := by
  refine { related with frames₁ := ?_, frame := ?_, environment := related.environment, link := ?_ }
  · rw [Heap.frames_size_set]
    exact related.frames₁
  · exact frame_set_related W live owed h₁ h₂ related frame index v
  · intro l member
    obtain ⟨value, state⟩ := related.link l member
    refine ⟨?_, state⟩
    rw [Heap.slot_set_other]
    · exact value
    · rintro ⟨frames, slots⟩
      exact free l member frames.symm slots.symm

end

end Ecma.Storage
