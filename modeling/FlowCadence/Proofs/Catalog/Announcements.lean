import FlowCadence.Catalog
import Mathlib.Data.List.Induction
/-! # What listeners of a catalog are told

The calls on a catalog alone say what it holds and what every listener is told.  Under a uri
stands the spec that was put there last, unless it was taken away since.  A listener is told of
every put and of every deletion that finds something, from its registration on and in the order
of the calls; of a removal it is not told.  Who listens from the start and carries out what it is
told has the same specs as the catalog, as long as nothing is removed without a word.

## Key results

* `get?_run`: what is stored after calls
* `act_eq`: one more call, and whom it is announced to
* `heard_run`: what one listener is told in the course of calls
* `replay_act`: carrying out what is told of one call
* `accounted`: store, announcements, list and replay together -/

namespace FlowCadence.Catalog

variable {c : Catalog} {actions : List Action} {name uri : String}

/-! ### Calls one after another -/

/-- The catalog and what its listeners were told, after one more action. -/
def goOn (r : Catalog × List Delivery) (a : Action) : Catalog × List Delivery :=
  ((r.1.act a).1, r.2 ++ (r.1.act a).2)

/-- A catalog that was empty at first, and everything that its listeners were told. -/
def run (actions : List Action) : Catalog × List Delivery := actions.foldl goOn (empty, [])

/-- One more call comes behind all others. -/
theorem run_concat (actions : List Action) (a : Action) :
    run (actions ++ [a]) = goOn (run actions) a := by
  rw [run, List.foldl_append]
  rfl

/-- What a listener was told. -/
def heard (name : String) (deliveries : List Delivery) : List Change :=
  (deliveries.filter fun d => d.1 = name).map (·.2)

/-! ### What calls come to -/

/-- What is stored under a uri after an action, from what was stored there before. -/
def Action.leaves (uri : String) (old : Option Spec) : Action → Option Spec
  | .put spec => if spec.uri = uri then some spec else old
  | .delete a | .remove a => if a = uri then none else old
  | .listen _ => old

/-- What is stored under a uri after actions on an empty catalog. -/
def held (actions : List Action) (uri : String) : Option Spec :=
  actions.foldl (Action.leaves uri) none

/-- The change that an action is to be announced as, if it is announced at all, after the
    actions before it. -/
def announced (before : List Action) : Action → Option Change
  | .put spec => some (if (held before spec.uri).isSome then .updated spec else .added spec)
  | .delete uri => (held before uri).map fun spec => .deleted spec.uri spec.version
  | .listen _ | .remove _ => none

/-- What a listener is to be told of actions, after the actions before them: every change that
    is announced, once for each time the listener has registered by then. -/
def due (name : String) : (before actions : List Action) → List Change
  | _, [] => []
  | before, a :: actions =>
    (announced before a).toList.flatMap (List.replicate (before.count (.listen name))) ++
      due name (before ++ [a]) actions

/-- What is stored is up to the last call that concerns the uri. -/
theorem held_concat (actions : List Action) (a : Action) (uri : String) :
    held (actions ++ [a]) uri = a.leaves uri (held actions uri) := by
  rw [held, List.foldl_append]
  rfl

/-- What a listener is due grows by what the last call announces. -/
theorem due_concat (name : String) (before actions : List Action) (a : Action) :
    due name before (actions ++ [a]) = due name before actions ++
      (announced (before ++ actions) a).toList.flatMap
        (List.replicate ((before ++ actions).count (.listen name))) := by
  induction actions generalizing before with
  | nil => simp [due]
  | cons b actions ih => simp [due, ih]

/-- A spec is stored under its own uri. -/
theorem uri_of_held {spec : Spec} (h : held actions uri = some spec) : spec.uri = uri := by
  induction actions using List.reverseRecOn with
  | nil => cases h
  | append_singleton actions a ih =>
    rw [held_concat] at h
    -- Only a put stores anything, and it does so under the uri of its spec.
    cases a with
    | listen name => exact ih h
    | put found =>
      rw [Action.leaves] at h
      split at h
      · cases h
        assumption
      · exact ih h
    | delete a | remove a =>
      rw [Action.leaves] at h
      split at h
      · cases h
      · exact ih h

/-! ### One call -/

/-- One call changes what is stored as `Action.leaves` says. -/
theorem get?_act (c : Catalog) (a : Action) (uri : String) :
    (c.act a).1.get? uri = a.leaves uri (c.get? uri) := by
  cases a with
  | listen name => rfl
  | put spec => exact getElem?_put c spec uri
  | delete removed | remove removed => exact getElem?_remove c removed uri

/-- So what is stored follows from the calls alone. -/
theorem get?_run (actions : List Action) (uri : String) :
    (run actions).1.get? uri = held actions uri := by
  induction actions using List.reverseRecOn with
  | nil => exact get?_empty uri
  | append_singleton actions a ih => rw [run_concat, goOn, get?_act, ih, held_concat]

/-- A listener is on the list as often as it has registered. -/
theorem count_listeners (actions : List Action) (name : String) :
    (run actions).1.listeners.count name = actions.count (.listen name) := by
  induction actions using List.reverseRecOn with
  | nil => rfl
  | append_singleton actions a ih =>
    rw [run_concat, goOn, List.count_append, List.count_singleton, ← ih]
    cases a with
    | listen other => simp [act, listen, List.count_append, List.count_singleton]
    | put spec | delete uri | remove uri => rfl

/-- The listeners of a call are those of the catalog, and all of them are told the same. -/
theorem snd_act (actions : List Action) (a : Action) :
    ((run actions).1.act a).2 =
      (announced actions a).toList.flatMap (run actions).1.deliveries := by
  cases a with
  | listen name | remove uri => rfl
  | put spec =>
    have hheld := get?_run actions spec.uri
    -- The call tells a new spec from a changed one by what the catalog holds.
    simp only [act, put, announced, ← hheld, get?, Std.ExtTreeMap.contains_eq_isSome_getElem?]
    simp [deliveries]
  | delete uri =>
    rw [act, announced, ← get?_run]
    cases hfound : (run actions).1.get? uri with
    | none => simp [delete, hfound]
    | some spec => simp [delete, hfound, remove, deliveries]

/-- What is told in two parts is heard in two parts. -/
theorem heard_append (name : String) (told more : List Delivery) :
    heard name (told ++ more) = heard name told ++ heard name more := by
  simp [heard]

/-- A listener is told of a change as often as it is on the list. -/
theorem heard_deliveries (c : Catalog) (name : String) (change : Change) :
    heard name (c.deliveries change) = List.replicate (c.listeners.count name) change := by
  have hfilter : (c.deliveries change).filter (fun d => d.1 = name) =
      (c.listeners.filter (· == name)).map fun other => (other, change) := by
    rw [deliveries, List.filter_map]
    congr 1
  rw [heard, hfilter, List.map_map, List.count, List.countP_eq_length_filter]
  exact List.map_const

/-- A listener is told what is due to it, and nothing else. -/
theorem heard_run (actions : List Action) (name : String) :
    heard name (run actions).2 = due name [] actions := by
  induction actions using List.reverseRecOn with
  | nil => rfl
  | append_singleton actions a ih =>
    rw [run_concat, goOn, heard_append, ih, due_concat, List.nil_append, snd_act]
    cases announced actions a with
    | none => rfl
    | some change => simp [heard_deliveries, count_listeners]

/-! ### Carrying out what is told -/

/-- A table of specs after a change was carried out. -/
def Change.carryOut (specs : Table Spec) : Change → Table Spec
  | .added spec | .updated spec => specs.insert spec.uri spec
  | .deleted uri _ => specs.erase uri

/-- The table that changes make of an empty one. -/
def replay (changes : List Change) : Table Spec := changes.foldl Change.carryOut ∅

/-- A change that is carried out once more changes nothing. -/
theorem carryOut_carryOut (specs : Table Spec) (change : Change) :
    change.carryOut (change.carryOut specs) = change.carryOut specs := by
  apply Std.ExtTreeMap.ext_getElem?
  intro uri
  cases change with
  | added spec | updated spec =>
    simp only [Change.carryOut, Table.lookUp_insert]
    split <;> rfl
  | deleted removed version =>
    simp only [Change.carryOut, Table.lookUp_erase]
    split <;> rfl

/-- Who is told of a change more than once carries it out once. -/
theorem foldl_carryOut_replicate (specs : Table Spec) (change : Change) {n : Nat} (hn : n ≠ 0) :
    (List.replicate n change).foldl Change.carryOut specs = change.carryOut specs := by
  induction n with
  | zero => exact absurd rfl hn
  | succ n ih =>
    rw [List.replicate_succ', List.foldl_append]
    cases n with
    | zero => rfl
    | succ n =>
      rw [ih (Nat.succ_ne_zero n)]
      exact carryOut_carryOut specs change

/-- Carrying out what is told of a call leads from the specs before it to those after it, unless
    it is a removal. -/
theorem specs_run_concat {a : Action} (h : ∀ uri, a ≠ .remove uri) :
    (run (actions ++ [a])).1.specs =
      (announced actions a).toList.foldl Change.carryOut (run actions).1.specs := by
  rw [run_concat, goOn]
  cases a with
  | listen name => rfl
  | remove uri => exact absurd rfl (h uri)
  | put spec =>
    rw [announced]
    split <;> rfl
  | delete uri =>
    have hget := get?_run actions uri
    rw [announced]
    cases hheld : held actions uri with
    | none =>
      -- Nothing is announced, and nothing was there to be deleted.
      refine Table.erase_of_contains_eq_false _ _ ?_
      rw [Std.ExtTreeMap.contains_eq_isSome_getElem?]
      exact congrArg Option.isSome (hget.trans hheld)
    | some spec =>
      obtain rfl := uri_of_held hheld
      rfl

/-- Before anything is put there is nothing to be told of. -/
theorem due_of_no_put (h : ∀ spec, Action.put spec ∉ actions) :
    held actions = (fun _ => none) ∧ due name [] actions = [] := by
  induction actions using List.reverseRecOn with
  | nil => exact ⟨rfl, rfl⟩
  | append_singleton actions a ih =>
    obtain ⟨hheld, hdue⟩ := ih fun spec hmem => h spec (List.mem_append_left _ hmem)
    -- Without a put nothing is stored, so no deletion finds anything.
    rw [due_concat, hdue, List.nil_append, List.nil_append]
    cases a with
    | put spec => exact absurd (by simp) (h spec)
    | listen other =>
      exact ⟨funext fun uri => by rw [held_concat, hheld]; rfl, rfl⟩
    | delete removed | remove removed =>
      refine ⟨funext fun uri => ?_, by simp [announced, hheld]⟩
      rw [held_concat, hheld, Action.leaves]
      split <;> rfl

/-- A listener that has registered before anything was put can tell what is stored. -/
theorem replay_heard {before after : List Action} (hput : ∀ spec, Action.put spec ∉ before)
    (hremove : ∀ uri, Action.remove uri ∉ after) :
    replay (heard name (run (before ++ .listen name :: after)).2) =
      (run (before ++ .listen name :: after)).1.specs := by
  induction after using List.reverseRecOn with
  | nil =>
    have hput' : ∀ spec, Action.put spec ∉ before ++ [.listen name] := by simpa using hput
    obtain ⟨hheld, hdue⟩ : _ ∧ due name [] (before ++ [.listen name]) = [] := due_of_no_put hput'
    rw [heard_run, hdue]
    apply Std.ExtTreeMap.ext_getElem?
    intro uri
    have hget := get?_run (before ++ [.listen name]) uri
    rw [hheld] at hget
    exact (Std.ExtTreeMap.getElem?_empty).trans hget.symm
  | append_singleton after a ih =>
    -- The call that is taken off comes behind the registration, so it is announced to the listener.
    have hih := ih fun uri hmem => hremove uri (List.mem_append_left _ hmem)
    have hsplit : before ++ .listen name :: (after ++ [a]) =
        (before ++ .listen name :: after) ++ [a] := by simp
    have hlistens : (before ++ .listen name :: after).count (.listen name) ≠ 0 := by simp
    rw [hsplit, specs_run_concat fun uri heq => hremove uri (by simp [heq]), ← hih, heard_run,
      due_concat, List.nil_append, replay, List.foldl_append, ← replay, ← heard_run]
    cases announced (before ++ .listen name :: after) a with
    | none => rfl
    | some change =>
      simp only [Option.toList_some, List.flatMap_singleton, List.foldl_cons, List.foldl_nil]
      exact foldl_carryOut_replicate _ change hlistens

/-! ### Store, announcements, list and replay -/

/-- What calls on an empty catalog come to. -/
structure Accounted (actions : List Action) : Prop where
  /-- What is stored follows from the calls. -/
  stored : ∀ uri, (run actions).1.get? uri = held actions uri
  /-- A spec is stored under its own uri. -/
  keyed : ∀ uri spec, (run actions).1.get? uri = some spec → spec.uri = uri
  /-- Every listener is told what is due to it. -/
  told : ∀ name, heard name (run actions).2 = due name [] actions
  /-- The stored specs are listed. -/
  listed : ∀ spec, spec ∈ (run actions).1.list ↔ (run actions).1.get? spec.uri = some spec
  /-- They are listed in ascending order, none of them twice. -/
  ascending : (run actions).1.list.Pairwise fun a b => a.uri < b.uri
  /-- Who has registered before anything was put can tell what is stored, if nothing was removed
      since. -/
  replayed : ∀ before name after, actions = before ++ .listen name :: after →
    (∀ spec, Action.put spec ∉ before) → (∀ uri, Action.remove uri ∉ after) →
    replay (heard name (run actions).2) = (run actions).1.specs

/-- Whatever calls are made, store, announcements and list account for all of them. -/
theorem accounted (actions : List Action) : Accounted actions := by
  have hkeyed (uri : String) (spec : Spec) (h : (run actions).1.get? uri = some spec) :
      spec.uri = uri :=
    uri_of_held ((get?_run actions uri).symm.trans h)
  have hentry (uri : String) (spec : Spec) :
      (uri, spec) ∈ (run actions).1.specs.toList ↔ (run actions).1.get? uri = some spec :=
    Std.ExtTreeMap.mem_toList_iff_getElem?_eq_some
  refine ⟨get?_run actions, hkeyed, heard_run actions, fun spec => ?_, ?_, ?_⟩
  · rw [list, List.mem_map]
    constructor
    · rintro ⟨⟨uri, found⟩, hmem, rfl⟩
      have hfound := (hentry uri found).1 hmem
      rwa [hkeyed uri found hfound]
    · intro hfound
      exact ⟨(spec.uri, spec), (hentry _ _).2 hfound, rfl⟩
  · rw [list, List.pairwise_map]
    refine (run actions).1.specs.ascending_toList.imp_of_mem fun {x y} hx hy hless => ?_
    rw [hkeyed x.1 x.2 ((hentry _ _).1 hx), hkeyed y.1 y.2 ((hentry _ _).1 hy)]
    exact hless
  · rintro before name after rfl hput hremove
    exact replay_heard hput hremove

/-- A version of a flow without properties. -/
private def bareVersion (uri version : Label) : Spec := .flow ⟨uri, version, none, ∅⟩

private def watchedUri : Label := ⟨"flow://k", Eq.refl false⟩

private def siblingUri : Label := ⟨"flow://l", Eq.refl false⟩

private def firstVersion : Label := ⟨"1", Eq.refl false⟩

private def secondVersion : Label := ⟨"2", Eq.refl false⟩

/-- One listener registers before anything is put, and can tell what is stored; another one
    registers later, and hears of the first flow only from its second version on. -/
theorem accounted_while_listening :
    let calls : List Action := [.delete watchedUri.text, .listen "early",
      .put (bareVersion watchedUri firstVersion), .listen "late",
      .put (bareVersion watchedUri secondVersion), .put (bareVersion siblingUri firstVersion),
      .delete watchedUri.text, .delete watchedUri.text]
    heard "late" (run calls).2 = [.updated (bareVersion watchedUri secondVersion),
        .added (bareVersion siblingUri firstVersion), .deleted watchedUri.text secondVersion.text] ∧
      replay (heard "early" (run calls).2) = (run calls).1.specs := by
  intro calls
  constructor
  · rw [(accounted calls).told]
    decide +kernel
  · exact (accounted calls).replayed [.delete watchedUri.text] "early" _ rfl (by simp)
      (by simp [bareVersion])

/-- Listeners do not hear of a removal, so the next put under the uri is a new one to them. -/
example : heard "early" (run [.listen "early", .put (bareVersion watchedUri firstVersion),
      .remove watchedUri.text,
    .put (bareVersion watchedUri secondVersion)]).2 =
      [.added (bareVersion watchedUri firstVersion),
        .added (bareVersion watchedUri secondVersion)] := by
  decide +kernel

end FlowCadence.Catalog
