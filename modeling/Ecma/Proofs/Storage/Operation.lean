import Ecma.Proofs.Storage.Change

set_option autoImplicit false

/-!
How the world grows: with environments, with frames, and with links between slots and bindings.
-/

namespace Ecma.Storage

open Ecma.Program Ecma.Scope

namespace World

def addInfo (W : World) (info : Info) : World :=
  { W with infos := W.infos ++ [info] }

def addFrame (W : World) (t : Scope.Tree) (code : Nat) : World :=
  { W with frames := W.frames ++ [(t, code)] }

def addLinks (W : World) (links : List Link) : World :=
  { W with links := W.links ++ links }

theorem add_info_below (W : World) (info : Info) : W.Below (W.addInfo info) := by
  refine ⟨fun e other found => ?_, fun _ _ => id, fun _ => id⟩
  change (W.infos ++ [info])[e]? = some other
  rw [List.getElem?_append_left (List.getElem?_eq_some_iff.mp found).1]
  exact found

theorem add_frame_below (W : World) (t : Scope.Tree) (code : Nat) : W.Below (W.addFrame t code) := by
  refine ⟨fun _ _ => id, fun f owner found => ?_, fun _ => id⟩
  change (W.frames ++ [(t, code)])[f]? = some owner
  rw [List.getElem?_append_left (List.getElem?_eq_some_iff.mp found).1]
  exact found

theorem add_links_below (W : World) (links : List Link) : W.Below (W.addLinks links) := by
  exact ⟨fun _ _ => id, fun _ _ => id, fun l member => List.mem_append_left links member⟩

theorem add_info_has (W : World) (info : Info) : (W.addInfo info).Has W.infos.length info := by
  change (W.infos ++ [info])[W.infos.length]? = some info
  exact List.getElem?_concat_length

-- An environment of the grown world is an old one or the new one.
theorem has_add_info (W : World) (info other : Info) (e : EnvironmentId)
    (found : (W.addInfo info).Has e other) : W.Has e other ∨ (e = W.infos.length ∧ other = info) := by
  change (W.infos ++ [info])[e]? = some other at found
  by_cases old : e < W.infos.length
  · rw [List.getElem?_append_left old] at found
    exact Or.inl found
  · rw [List.getElem?_append_right (Nat.le_of_not_lt old)] at found
    have inside := (List.getElem?_eq_some_iff.mp found).1
    rw [List.length_singleton] at inside
    have same : e - W.infos.length = 0 := Nat.lt_one_iff.mp inside
    rw [same] at found
    exact Or.inr ⟨Nat.le_antisymm (Nat.le_of_sub_eq_zero same) (Nat.le_of_not_lt old),
      (Option.some.inj found).symm⟩

end World

section

variable (W : World) (live : List Link) (owed : List (EnvironmentId × String)) (h₁ h₂ : Heap)
  (related : HeapRelated W live owed h₁ h₂)
include related

theorem twin_known (e₁ e₂ : EnvironmentId) (info : Info) (found : W.Has e₂ info)
    (twin : info.twin = some e₁) : e₁ < h₁.environments.size := by
  obtain ⟨record, environment⟩ := related.environment e₂ info found
  exact (Array.getElem?_eq_some_iff.mp (environment.first e₁ twin)).1

theorem has_known (e₂ : EnvironmentId) (info : Info) (found : W.Has e₂ info) :
    e₂ < h₂.environments.size := by
  rw [related.environments]
  exact (List.getElem?_eq_some_iff.mp found).1

/-- The second run makes an environment; the first makes its counterpart or none. -/
theorem add_environment_related (info : Info) (record : EnvironmentRecord) (k : Heap)
    (more : List (EnvironmentId × String)) (objects : k.objects = h₁.objects) (frames : k.frames = h₁.frames)
    (kept : ∀ (e : Nat) env, h₁.environments[e]? = some env → k.environments[e]? = some env)
    (made : ∀ e₁, info.twin = some e₁ → h₁.environments.size ≤ e₁ ∧
      k.environments[e₁]? = some ⟨without info.shape.hidden record, info.around₁⟩)
    (less₁ : ∀ e₁ o, info.twin = some e₁ → info.around₁ = some o → o < e₁)
    (less₂ : ∀ o, info.around₂ = some o → o < h₂.environments.size)
    (describes : info.shape.Describes (fun name => (h₂.environments.size, name) ∈ more) record)
    (due : ∀ entry ∈ owed, entry ∈ more)
    (new : ∀ entry ∈ more, entry ∈ owed ∨ entry.1 = h₂.environments.size) :
    HeapRelated (W.addInfo info) live more k (h₂.addEnvironment ⟨record, info.around₂⟩).2 := by
  have below := W.add_info_below info
  have count := related.environments
  have object : ∀ id, k.object id = h₁.object id := by
    intro id
    rw [Heap.object, Heap.object, objects]
  have slot : ∀ f i, k.slot f i = h₁.slot f i := by
    intro f i
    rw [Heap.slot, Heap.slot, frames]
  have old : ∀ (e : Nat) env, h₂.environments[e]? = some env →
      (h₂.addEnvironment ⟨record, info.around₂⟩).2.environments[e]? = some env := by
    intro e env found
    change (h₂.environments.push _)[e]? = some env
    rw [Array.getElem?_push, if_neg, found]
    exact Nat.ne_of_lt (Array.getElem?_eq_some_iff.mp found).1
  refine { objects := ?_, object := ?_, frames₁ := ?_, frames₂ := related.frames₂, frame := ?_,
           environments := ?_, environment := ?_, apart := ?_, link := ?_, placed := ?_,
           placed_live := ?_, slots := related.slots, names := related.names, tethered := ?_,
           globals := open_grown W _ below _ _ related.globals, global := global_grown W _ below related.global, home := related.home }
  · rw [objects]
    exact related.objects
  · intro id
    rw [object]
    exact object_grown W _ below _ _ (related.object id)
  · rw [frames]
    exact related.frames₁
  · rw [frames]
    exact related.frame
  · change (h₂.environments.push _).size = (W.infos ++ [info]).length
    rw [Array.size_push, List.length_append, List.length_singleton, count]
  · intro e₂ other found
    rcases W.has_add_info info other e₂ found with before | ⟨new, same⟩
    · obtain ⟨record', environment⟩ := related.environment e₂ other before
      refine ⟨record', old _ _ environment.second, fun e₁ twin => kept _ _ (environment.first e₁ twin),
        environment.less₁, environment.less₂, ?_⟩
      have others : ∀ name, (e₂, name) ∈ more ↔ (e₂, name) ∈ owed := by
        refine fun name => ⟨fun member => (new _ member).resolve_right fun same => ?_, due _⟩
        have less := has_known W live owed h₁ h₂ related e₂ other before
        exact absurd same (Nat.ne_of_lt less)
      rw [show (fun name => (e₂, name) ∈ more) = fun name => (e₂, name) ∈ owed from
        funext fun name => propext (others name)]
      exact environment.describes
    · subst new
      subst same
      rw [← count]
      refine ⟨record, ?_, fun e₁ twin => (made e₁ twin).2, less₁, less₂, describes⟩
      change (h₂.environments.push _)[h₂.environments.size]? = _
      rw [Array.getElem?_push, if_pos rfl]
  · intro e₁ e₂ f₂ first second found there twin twin'
    rcases W.has_add_info info first e₂ found with before | ⟨new, same⟩
    · have bound := twin_known W live owed h₁ h₂ related e₁ e₂ first before twin
      rcases W.has_add_info info second f₂ there with before' | ⟨new', same'⟩
      · exact related.apart e₁ e₂ f₂ first second before before' twin twin'
      · subst same'
        exact absurd bound (Nat.not_lt.mpr (made e₁ twin').1)
    · rcases W.has_add_info info second f₂ there with before' | ⟨new', same'⟩
      · have bound := twin_known W live owed h₁ h₂ related e₁ f₂ second before' twin'
        subst same
        exact absurd bound (Nat.not_lt.mpr (made e₁ twin).1)
      · rw [new, new']
  · intro l member
    obtain ⟨value, state⟩ := related.link l member
    obtain ⟨kind, placed⟩ := link_placed W live owed h₁ h₂ related l member
    obtain ⟨other, found, _⟩ := placed.env
    obtain ⟨record', environment⟩ := related.environment l.env other found
    have binding : (h₂.addEnvironment ⟨record, info.around₂⟩).2.binding? l.env l.name =
        h₂.binding? l.env l.name := by
      rw [Heap.binding?, Heap.binding?, Heap.bindings?, Heap.bindings?,
        Heap.environment_of h₂ _ _ environment.second, Heap.environment_of _ _ _ (old _ _ environment.second)]
    refine ⟨?_, fun free => ?_⟩
    · rw [slot, Heap.read_binding, binding, ← Heap.read_binding]
      exact value
    · rw [binding]
      exact state fun before => free (due _ before)
  · exact fun l member => placed_grown W _ below _ l (related.placed l member)
  · exact fun l member => placed_grown W _ below _ l (related.placed_live l member)
  · refine tethered_kept owed more h₂ _ related.tethered (fun _ _ _ => id) (fun e name binding found state => ?_)
      fun e still => (new _ still).imp_right fun here => Nat.le_of_eq here.symm
    refine ⟨binding, ?_, state⟩
    have known := Heap.binding_known h₂ e name binding found
    obtain ⟨env, there⟩ : ∃ env, h₂.environments[e]? = some env := ⟨_, Array.getElem?_eq_getElem known⟩
    rw [Heap.binding?, Heap.bindings?, Heap.environment_of h₂ _ _ there] at found
    rw [Heap.binding?, Heap.bindings?, Heap.environment_of _ _ _ (old _ _ there)]
    exact found

theorem add_frame_related (t : Scope.Tree) (code : Nat) (slots₂ : Array Value) :
    HeapRelated (W.addFrame t code) live owed
      (h₁.addFrame (Array.replicate ((t.analyze true).code code).slots .undefined)).2 (h₂.addFrame slots₂).2 := by
  have below := W.add_frame_below t code
  have old (f : Nat) (known : f < h₁.frames.size) (slots : Array Value) :
      (h₁.frames.push slots)[f]? = h₁.frames[f]? := by
    rw [Array.getElem?_push, if_neg (Nat.ne_of_lt known)]
  refine { related with
    object := ?_, frames₁ := ?_, frames₂ := ?_, frame := ?_, link := ?_, placed := ?_, placed_live := ?_,
    tethered := ⟨related.tethered.lasting, related.tethered.own⟩,
    globals := open_grown W _ below _ _ related.globals, global := global_grown W _ below related.global }
  · exact fun id => object_grown W _ below _ _ (related.object id)
  · change (h₁.frames.push _).size = (W.frames ++ [(t, code)]).length
    rw [Array.size_push, List.length_append, List.length_singleton, related.frames₁]
  · change (h₂.frames.push _).size = (W.frames ++ [(t, code)]).length
    rw [Array.size_push, List.length_append, List.length_singleton, related.frames₂]
  · intro f t' code' found
    change (W.frames ++ [(t, code)])[f]? = some (t', code') at found
    by_cases before : f < W.frames.length
    · rw [List.getElem?_append_left before] at found
      obtain ⟨slots, there, size⟩ := related.frame f t' code' found
      refine ⟨slots, ?_, size⟩
      exact (old f (Array.getElem?_eq_some_iff.mp there).1 _).trans there
    · rw [List.getElem?_append_right (Nat.le_of_not_lt before)] at found
      have inside := (List.getElem?_eq_some_iff.mp found).1
      rw [List.length_singleton] at inside
      have same : f - W.frames.length = 0 := Nat.lt_one_iff.mp inside
      have here : f = h₁.frames.size := by
        rw [related.frames₁]
        exact Nat.le_antisymm (Nat.le_of_sub_eq_zero same) (Nat.le_of_not_lt before)
      rw [same] at found
      cases Option.some.inj found
      refine ⟨Array.replicate ((t.analyze true).code code).slots .undefined, ?_, Array.size_replicate⟩
      change (h₁.frames.push _)[f]? = _
      rw [Array.getElem?_push, if_pos here]
  · intro l member
    obtain ⟨value, state⟩ := related.link l member
    refine ⟨?_, state⟩
    obtain ⟨slots, found, _⟩ := link_inside W live owed h₁ h₂ related l member
    have known := (Array.getElem?_eq_some_iff.mp found).1
    rw [Heap.slot, Heap.addFrame]
    dsimp only
    rw [old l.frame known]
    exact value
  · exact fun l member => placed_grown W _ below _ l (related.placed l member)
  · exact fun l member => placed_grown W _ below _ l (related.placed_live l member)

-- Links join those there are; each slot and each binding is in at most one.
theorem add_links_related (links : List Link) (alike : ∀ l ∈ links, LinkRelated owed h₁ h₂ l)
    (placed : ∀ l ∈ links, W.Placed .function l)
    (slots : ∀ l ∈ links, ∀ k ∈ links ++ (W.links ++ live), l.frame = k.frame → l.slot = k.slot → l = k)
    (names : ∀ l ∈ links, ∀ k ∈ links ++ (W.links ++ live), l.env = k.env → l.name = k.name → l = k) :
    HeapRelated (W.addLinks links) live owed h₁ h₂ := by
  have below := W.add_links_below links
  have split (l : Link) (member : l ∈ (W.links ++ links) ++ live) : l ∈ links ∨ l ∈ W.links ++ live := by
    rcases List.mem_append.mp member with first | temporary
    · rcases List.mem_append.mp first with old | new
      · exact Or.inr (List.mem_append_left _ old)
      · exact Or.inl new
    · exact Or.inr (List.mem_append_right _ temporary)
  have all (l : Link) (member : l ∈ links ∨ l ∈ W.links ++ live) : l ∈ links ++ (W.links ++ live) := by
    exact List.mem_append.mpr member
  refine { related with
    object := ?_, link := ?_, placed := ?_, placed_live := ?_, slots := ?_, names := ?_,
    globals := open_grown W _ below _ _ related.globals, global := global_grown W _ below related.global }
  · exact fun id => object_grown W _ below _ _ (related.object id)
  · exact fun l member => (split l member).elim (alike l) (related.link l)
  · intro l member
    refine placed_grown W _ below _ l ?_
    rcases List.mem_append.mp member with old | new
    · exact related.placed l old
    · exact placed l new
  · exact fun l member => placed_grown W _ below _ l (related.placed_live l member)
  · intro l member k there frame slot
    rcases split l member with new | old
    · exact slots l new k (all k (split k there)) frame slot
    · rcases split k there with new' | old'
      · exact (slots k new' l (all l (Or.inr old)) frame.symm slot.symm).symm
      · exact related.slots l old k old' frame slot
  · intro l member k there env name
    rcases split l member with new | old
    · exact names l new k (all k (split k there)) env name
    · rcases split k there with new' | old'
      · exact (names k new' l (all l (Or.inr old)) env.symm name.symm).symm
      · exact related.names l old k old' env name

theorem add_live_related (l : Link) (alike : LinkRelated owed h₁ h₂ l) (placed : W.Placed .handler l)
    (slots : ∀ k ∈ W.links ++ live, l.frame = k.frame → l.slot ≠ k.slot)
    (names : ∀ k ∈ W.links ++ live, l.env ≠ k.env) : HeapRelated W (l :: live) owed h₁ h₂ := by
  have split (k : Link) (member : k ∈ W.links ++ l :: live) : k = l ∨ k ∈ W.links ++ live := by
    rcases List.mem_append.mp member with old | temporary
    · exact Or.inr (List.mem_append_left _ old)
    · rcases List.mem_cons.mp temporary with here | rest
      · exact Or.inl here
      · exact Or.inr (List.mem_append_right _ rest)
  refine { related with link := ?_, placed_live := ?_, slots := ?_, names := ?_ }
  · intro k member
    rcases split k member with rfl | old
    · exact alike
    · exact related.link k old
  · intro k member
    rcases List.mem_cons.mp member with rfl | old
    · exact placed
    · exact related.placed_live k old
  · intro j member k there frame slot
    rcases split j member with rfl | old
    · rcases split k there with rfl | old'
      · rfl
      · exact absurd slot (slots k old' frame)
    · rcases split k there with rfl | old'
      · exact absurd slot.symm (slots j old frame.symm)
      · exact related.slots j old k old' frame slot
  · intro j member k there env name
    rcases split j member with rfl | old
    · rcases split k there with rfl | old'
      · rfl
      · exact absurd env (names k old')
    · rcases split k there with rfl | old'
      · exact absurd env.symm (names j old)
      · exact related.names j old k old' env name

theorem fewer_live_related (less : List Link) (fewer : ∀ l ∈ less, l ∈ live) :
    HeapRelated W less owed h₁ h₂ := by
  have all (l : Link) (member : l ∈ W.links ++ less) : l ∈ W.links ++ live := by
    rcases List.mem_append.mp member with old | temporary
    · exact List.mem_append_left _ old
    · exact List.mem_append_right _ (fewer l temporary)
  exact { related with
    link := fun l member => related.link l (all l member)
    placed_live := fun l member => related.placed_live l (fewer l member)
    slots := fun l member k there => related.slots l (all l member) k (all k there)
    names := fun l member k there => related.names l (all l member) k (all k there) }

end

end Ecma.Storage

/-!
Defining and deleting properties keeps heaps related, and gives the same answers.
-/

namespace Ecma.Storage

open Ecma.Program Ecma.Scope

/-- Changes that say the same and leave related heaps. -/
def Agree {α : Type} (W : World) (live : List Link) (x₁ x₂ : α × Heap) : Prop :=
  x₁.1 = x₂.1 ∧ HeapRelated W live [] x₁.2 x₂.2

section

variable (W : World) (live : List Link) (h₁ h₂ : Heap) (related : HeapRelated W live [] h₁ h₂)
include related

omit related in
theorem written_lasting (l : Link) (v : Value) (state : l.state = .lasting) (b : Bindings)
    (known : (l.env, l.name) ∉ ([] : List (EnvironmentId × String)) →
      ∃ binding, Dictionary.find? b l.name = some binding ∧ binding.state = l.state) :
    Dictionary.find? (Bindings.write b l.name v) l.name = some ⟨v, l.state⟩ := by
  obtain ⟨binding, there, same⟩ := known List.not_mem_nil
  rw [state] at same
  rw [Bindings.write, Dictionary.find_modify, if_pos rfl, there, state]
  change some (if binding.state.isMutable = true then Binding.mk v binding.state else binding) = _
  rw [same]
  rfl

theorem write_alias_related (a₁ a₂ : Alias) (v : Value) (alike : AliasRelated W a₁ a₂) :
    HeapRelated W live [] (h₁.writeAlias a₁ v) (h₂.writeAlias a₂ v) := by
  cases alike with
  | slot l member state =>
    have among := List.mem_append_left live member
    exact change_hidden_related W live [] [] h₁ h₂ related l v _ among
      (fun info _ => write_admits info.shape l.name v)
      (fun b _ => written_lasting l v state b) (pays_nothing _ _ _)
  | binding e₁ e₂ name twins =>
    obtain ⟨info, found, twin, shown⟩ := twins
    exact change_shown_related W live [] [] h₁ h₂ related e₁ e₂ info name _ found twin shown
      (write_admits info.shape name v) (pays_nothing _ _ _)

theorem define_ordinary_agree (id : ObjectId) (key : PropertyKey) (d : Definition) :
    Agree W live (h₁.defineOrdinary id key d) (h₂.defineOrdinary id key d) := by
  have same := heaps_same_view W live [] h₁ h₂ related
  rw [Heap.defineOrdinary, Heap.defineOrdinary, Heap.judge_same h₁ h₂ same]
  split
  · exact ⟨rfl, modify_properties_related W live [] h₁ h₂ related id fun t => t.insert key d.create⟩
  · exact ⟨rfl, modify_properties_related W live [] h₁ h₂ related id fun t => t.modify key d.apply⟩
  · exact ⟨rfl, related⟩
  · exact ⟨rfl, related⟩

theorem delete_agree (id : ObjectId) (key : PropertyKey) :
    Agree W live (h₁.delete id key) (h₂.delete id key) := by
  have same := heaps_same_view W live [] h₁ h₂ related
  rw [Heap.delete, Heap.delete, Heap.own_same h₁ h₂ same]
  split
  · exact ⟨rfl, related⟩
  · split
    · refine ⟨rfl, unmap_related W live [] _ _ ?_ id key⟩
      exact modify_properties_related W live [] h₁ h₂ related id _
    · exact ⟨rfl, related⟩

end

/-! Arrays. -/

theorem delete_elements_agree (W : World) (live : List Link) (id : ObjectId) (indices : List Nat)
    (h₁ h₂ : Heap) (related : HeapRelated W live [] h₁ h₂) :
    Agree W live (h₁.deleteElements id indices) (h₂.deleteElements id indices) := by
  induction indices generalizing h₁ h₂ with
  | nil => exact ⟨rfl, related⟩
  | cons i rest hyp =>
    obtain ⟨answers, heaps⟩ := delete_agree W live h₁ h₂ related id (.index i)
    rw [Heap.deleteElements, Heap.deleteElements]
    generalize h₁.delete id (.index i) = x₁ at answers heaps
    generalize h₂.delete id (.index i) = x₂ at answers heaps
    obtain ⟨gone, k₁⟩ := x₁
    obtain ⟨gone', k₂⟩ := x₂
    dsimp only at answers heaps
    subst answers
    cases gone with
    | true => exact hyp k₁ k₂ heaps
    | false => exact ⟨rfl, heaps⟩

section

variable (W : World) (live : List Link) (h₁ h₂ : Heap) (related : HeapRelated W live [] h₁ h₂)
include related

theorem shrink_agree (id : ObjectId) (d : Definition) (length : Nat) :
    Agree W live (h₁.shrink id d length) (h₂.shrink id d length) := by
  unfold Heap.shrink
  dsimp only
  generalize (if d.writable = some false then d.withWritable true else d) = first
  obtain ⟨answers, heaps⟩ := define_ordinary_agree W live h₁ h₂ related id .length first
  generalize h₁.defineOrdinary id .length first = x₁ at answers heaps
  generalize h₂.defineOrdinary id .length first = x₂ at answers heaps
  obtain ⟨accepted, k₁⟩ := x₁
  obtain ⟨accepted', k₂⟩ := x₂
  dsimp only at answers heaps
  subst answers
  cases accepted with
  | false => exact ⟨rfl, heaps⟩
  | true =>
    have same := heaps_same_view W live [] k₁ k₂ heaps
    dsimp only
    rw [Heap.elements_from_same k₁ k₂ same]
    obtain ⟨answers, after⟩ := delete_elements_agree W live id (k₂.elementsFrom id length) k₁ k₂ heaps
    generalize k₁.deleteElements id (k₂.elementsFrom id length) = y₁ at answers after
    generalize k₂.deleteElements id (k₂.elementsFrom id length) = y₂ at answers after
    obtain ⟨stuck, l₁⟩ := y₁
    obtain ⟨stuck', l₂⟩ := y₂
    dsimp only at answers after
    subst answers
    cases stuck with
    | some i => exact ⟨rfl, (define_ordinary_agree W live l₁ l₂ after id .length _).2⟩
    | none =>
      dsimp only
      split
      · exact ⟨rfl, (define_ordinary_agree W live l₁ l₂ after id .length _).2⟩
      · exact ⟨rfl, after⟩

theorem define_length_agree (id : ObjectId) (d : Definition) (length : Nat) (old : Nat × Bool) :
    Agree W live (h₁.defineLength id d length old) (h₂.defineLength id d length old) := by
  rw [Heap.defineLength, Heap.defineLength]
  split
  · exact define_ordinary_agree W live h₁ h₂ related id .length _
  · split
    · exact ⟨rfl, related⟩
    · exact shrink_agree W live h₁ h₂ related id _ length

theorem define_element_agree (id : ObjectId) (i : Nat) (d : Definition) :
    Agree W live (h₁.defineElement id i d) (h₂.defineElement id i d) := by
  have same := heaps_same_view W live [] h₁ h₂ related
  unfold Heap.defineElement
  rw [Heap.length_of_same h₁ h₂ same]
  generalize h₂.lengthOf id = old
  obtain ⟨length, lengthWritable⟩ := old
  dsimp only
  split
  · exact ⟨rfl, related⟩
  · obtain ⟨answers, heaps⟩ := define_ordinary_agree W live h₁ h₂ related id (.index i) d
    generalize h₁.defineOrdinary id (.index i) d = x₁ at answers heaps
    generalize h₂.defineOrdinary id (.index i) d = x₂ at answers heaps
    obtain ⟨accepted, k₁⟩ := x₁
    obtain ⟨accepted', k₂⟩ := x₂
    dsimp only at answers heaps
    subst answers
    cases accepted with
    | false => exact ⟨rfl, heaps⟩
    | true =>
      dsimp only
      split
      · exact ⟨rfl, modify_properties_related W live [] k₁ k₂ heaps id fun t =>
          t.modify .length (·.withValue (.ofNat (i + 1)))⟩
      · exact ⟨rfl, heaps⟩

/-! Arguments objects. -/

theorem follow_alias_related (id : ObjectId) (key : PropertyKey) (a₁ a₂ : Alias) (d : Definition)
    (alike : AliasRelated W a₁ a₂) :
    HeapRelated W live [] (h₁.followAlias id key a₁ d) (h₂.followAlias id key a₂ d) := by
  rw [Heap.followAlias, Heap.followAlias]
  split
  · exact unmap_related W live [] h₁ h₂ related id key
  · cases d.value with
    | some v =>
      have written := write_alias_related W live h₁ h₂ related a₁ a₂ v alike
      dsimp only
      split
      · exact unmap_related W live [] _ _ written id key
      · exact written
    | none =>
      dsimp only
      split
      · exact unmap_related W live [] _ _ related id key
      · exact related

theorem define_argument_agree (id : ObjectId) (key : PropertyKey) (d : Definition) :
    Agree W live (h₁.defineArgument id key d) (h₂.defineArgument id key d) := by
  have same := heaps_same_view W live [] h₁ h₂ related
  rw [Heap.defineArgument, Heap.defineArgument]
  rcases alias_related W live [] h₁ h₂ related id key with ⟨first, second⟩ | ⟨a₁, a₂, first, second, alike⟩
  · rw [first, second]
    exact define_ordinary_agree W live h₁ h₂ related id key d
  · rw [first, second]
    dsimp only
    rw [Heap.freeze_aliased_same h₁ h₂ same]
    generalize h₂.freezeAliased id key d = frozen
    obtain ⟨answers, heaps⟩ := define_ordinary_agree W live h₁ h₂ related id key frozen
    generalize h₁.defineOrdinary id key frozen = x₁ at answers heaps
    generalize h₂.defineOrdinary id key frozen = x₂ at answers heaps
    obtain ⟨accepted, k₁⟩ := x₁
    obtain ⟨accepted', k₂⟩ := x₂
    dsimp only at answers heaps
    subst answers
    cases accepted with
    | false => exact ⟨rfl, heaps⟩
    | true => exact ⟨rfl, follow_alias_related W live k₁ k₂ heaps id key a₁ a₂ frozen alike⟩

omit related in
theorem define_face (h : Heap) (id : ObjectId) (key : PropertyKey) (d : Definition) :
    h.define id key d = match (h.kind id).face, key with
      | .array, .index i => h.defineElement id i d
      | .arguments _, _ => h.defineArgument id key d
      | _, _ => h.defineOrdinary id key d := by
  unfold Heap.define
  cases h.kind id with
  | function f => cases f <;> rfl
  | _ => rfl

theorem define_agree (id : ObjectId) (key : PropertyKey) (d : Definition) :
    Agree W live (h₁.define id key d) (h₂.define id key d) := by
  have same := heaps_same_view W live [] h₁ h₂ related
  rw [define_face, define_face, same.kind]
  split
  · exact define_element_agree W live h₁ h₂ related id _ d
  · exact define_argument_agree W live h₁ h₂ related id _ d
  · exact define_ordinary_agree W live h₁ h₂ related id _ d

end

end Ecma.Storage
