import FlowCadence.Proofs.Node.Backing
import FlowCadence.Proofs.Node.Command
/-! # Forwarded updates

A node on standby that hears of a changed flow tells the leading node that the flow
was removed and that it was added.  The leading node does not take the first notice
at its word: it asks the catalog, which holds the changed flow, and leaves the flow
as it is.  So the old version is only gone when the new one takes its place.

What the two notices come to is what the leading node would have done about the
change itself, except in two cases, told apart by `CarriesOver`:

* the new version has no schedule that can be used, and there is a trigger already
* the version holds a colon, so that the first notice names another uri, and a
  flow under that uri is taken for removed

## Key results

* `sent_update`: which notices are sent
* `sameAt_uri_iff`, `sameAt_other_iff`: where the two ways agree, one uri at a time
* `forwarded_update_iff`: when they agree on all -/

namespace FlowCadence.Node

variable {s s' : Setup} {n m : Node} {f : Flow}

/-- The notices that a node has sent, whether or not they got through. -/
def sent (n : Node) : List Notice :=
  n.trace.filterMap fun
    | .call (.send notice) => some notice
    | _ => none

/-- What a trigger does: its name, when it fires and which flow it runs. -/
def outline (job : ScheduledJob) : String × Cron.Schedule × Option Flow :=
  (job.name, job.schedule, job.payload.flow)

/-- Two nodes have the same flows registered and the same triggers installed. -/
structure SameSchedule (n m : Node) : Prop where
  registry : n.registry = m.registry
  jobs : ∀ name : String, n.jobs[name]?.map outline = m.jobs[name]?.map outline

/-- Two nodes have the same flow registered and the same trigger installed under a uri. -/
def SameAt (n m : Node) (uri : String) : Prop :=
  n.registry[uri]? = m.registry[uri]? ∧ n.jobs[uri]?.map outline = m.jobs[uri]?.map outline

/-- Two nodes have the same schedule just if they have it uri by uri. -/
theorem sameSchedule_iff : SameSchedule n m ↔ ∀ uri, SameAt n m uri := by
  constructor
  · intro h uri
    exact ⟨by rw [h.registry], h.jobs uri⟩
  · intro h
    exact ⟨Std.ExtTreeMap.ext_getElem? fun {uri} => (h uri).1, fun name => (h name).2⟩

/-- A uri that is taken for that of a removed flow when a removal of `f` arrives: what
    stands in front of the last colon, if the version has one and the catalog knows
    nothing under that uri. -/
def Astray (s : Setup) (n : Node) (f : Flow) (uri : String) : Prop :=
  ∃ a b, f.version.text = a ++ ":" ++ b ∧ ':' ∉ b.toList ∧ Text.isBlank b = false ∧
    uri = f.uri.text ++ ":" ++ a ∧ s.replies.lookUp (n.call (.lookUp uri)) uri = .ok none

/-- An update of `f` comes to the same whether it is forwarded or not. -/
structure CarriesOver (s : Setup) (n : Node) (f : Flow) : Prop where
  /-- The new version takes the place of the old one, or there was no old one. -/
  replaces : (∃ sch, s.Schedules f sch) ∨ n.jobs[f.uri.text]? = none
  /-- No flow of another uri is taken for removed. -/
  spares : ∀ uri, Astray s n f uri → n.jobs[uri]? = none

/-! ### What is sent -/

/-- A notice counts as sent once it was handed over. -/
theorem sent_forward (hc : s.clustered = true) (notice : Notice) (uri : String) (n : Node) :
    (n.forward s notice uri).sent = n.sent ++ [notice] := by
  have hcall : (n.call (.send notice)).sent = n.sent ++ [notice] := by
    simp [sent, call]
  simp only [forward, hc, if_true]
  -- Whether the notice got through or not, the attempt is what counts; a failure adds an alert.
  split
  · exact hcall
  · rw [← hcall]
    simp [sent, alert]

/-- A node that stands aside sends a removal and then an addition. -/
theorem sent_update (haside : m.aside s' = true) (f : Flow) :
    ∃ i j, (m.update s' (.flow f)).sent =
      m.sent ++ [.ofRemoved i f.uri.text f.version.text, .ofAdded j f.uri.text] := by
  have hc : s'.clustered = true := (aside_eq_true_iff.1 haside).2
  refine ⟨s'.noticeId m, s'.noticeId (m.forwardRemoved s' f.uri.text f.version.text), ?_⟩
  rw [update_of_aside haside, forwardAdded, sent_forward hc, forwardRemoved, sent_forward hc, List.append_assoc]
  rfl

/-! ### What the leading node makes of the removal -/

/-- A uri that is astray is not that of the flow. -/
theorem Astray.ne {uri : String} (h : Astray s n f uri) : f.uri.text ≠ uri := by
  obtain ⟨a, _, _, _, _, rfl, _⟩ := h
  intro heq
  -- What is astray is longer than the flow's own uri.
  have hlen := congrArg String.length heq
  simp only [String.length_append] at hlen
  have hcolon : (":" : String).length = 1 := rfl
  omega

/-- It is the one that the removal of the flow names. -/
theorem Astray.removal {uri : String} (h : Astray s n f uri) (i : Identifier) :
    ∃ v, Notice.removal (.ofRemoved i f.uri.text f.version.text) = .ok (uri, v) := by
  obtain ⟨a, v, hversion, hcolon, hblank, rfl, _⟩ := h
  refine ⟨v, Notice.removal_ofRemoved_eq_ok_iff.2 ⟨.inr ⟨a, rfl, hversion⟩, hcolon, ?_, hblank⟩⟩
  have huri := f.uri.text_not_blank
  simp only [Text.isBlank, String.toList_append, List.all_append] at huri ⊢
  rw [huri]
  rfl

/-- What a removal of a flow leaves of a node whose catalog still holds the flow. -/
structure Spared (s : Setup) (n : Node) (f : Flow) (m : Node) : Prop where
  active : m.active = true
  astray : ∀ uri, Astray s n f uri → m.registry[uri]? = none ∧ m.jobs[uri]? = none
  others : ∀ uri, ¬ Astray s n f uri →
    m.registry[uri]? = n.registry[uri]? ∧ m.jobs[uri]? = n.jobs[uri]?

/-- With both tables unchanged and nothing astray, everything is spared. -/
theorem Spared.of_tables (hactive : m.active = true) (hr : m.registry = n.registry)
    (hj : m.jobs = n.jobs) (h : ∀ uri, ¬ Astray s n f uri) : Spared s n f m where
  active := hactive
  astray uri huri := absurd huri (h uri)
  others uri _ := by
    rw [hr, hj]
    exact ⟨rfl, rfl⟩

/-- A removal takes away nothing but what is astray. -/
theorem spared_removal (hactive : n.active = true) (hc : s.catalogued = true)
    (hs : s.replies.EngineServes) {spec : Spec}
    (hcat : s.replies.lookUp (n.call (.lookUp f.uri.text)) f.uri.text = .ok (some spec))
    (i : Identifier) :
    Spared s n f (n.obey s (.notice (.ofRemoved i f.uri.text f.version.text))) := by
  cases hm : Notice.removal (.ofRemoved i f.uri.text f.version.text) with
  | error refusal =>
    -- A notice that cannot be read is dropped, and it could be read if anything were astray.
    rw [Notice.ofRemoved] at hm ⊢
    rw [obey_notice_malformed hactive hm]
    refine .of_tables hactive rfl rfl fun uri h => ?_
    obtain ⟨v, hok⟩ := h.removal i
    rw [Notice.ofRemoved, hm] at hok
    cases hok
  | ok sides =>
    obtain ⟨u, v⟩ := sides
    -- Whatever is astray is what the notice names, and the catalog knows nothing of it.
    have hnamed (uri : String) (h : Astray s n f uri) :
        uri = u ∧ s.replies.lookUp (n.call (.lookUp u)) u = .ok none := by
      obtain ⟨_, hok⟩ := h.removal i
      rw [hm] at hok
      cases hok
      obtain ⟨_, _, _, _, _, _, hnone⟩ := h
      exact ⟨rfl, hnone⟩
    obtain ⟨hname, hcolon, _, hblank⟩ := Notice.removal_ofRemoved_eq_ok_iff.1 hm
    rw [Notice.ofRemoved] at hm ⊢
    rw [obey_notice_removed hactive hc hm]
    -- What the catalog answers about the named uri decides what the notice does.
    cases hr : s.replies.lookUp (n.call (.lookUp u)) u with
    | error fault =>
      refine .of_tables hactive rfl rfl fun uri h => ?_
      rw [(hnamed uri h).2] at hr
      cases hr
    | ok found =>
      cases found with
      | some _ =>
        refine .of_tables hactive rfl rfl fun uri h => ?_
        rw [(hnamed uri h).2] at hr
        cases hr
      | none =>
        -- The catalog holds the flow, so the notice names another uri.
        have hastray : Astray s n f u := by
          rcases hname with ⟨rfl, _⟩ | ⟨a, rfl, hversion⟩
          · rw [hcat] at hr
            cases hr
          · exact ⟨a, v, hversion, hcolon, hblank, rfl, hr⟩
        refine ⟨?_, ?_, ?_⟩
        · rw [active_unschedule]
          exact hactive
        · intro uri h
          obtain ⟨rfl, _⟩ := hnamed uri h
          rw [registry_unschedule, jobs_unschedule hs, Table.lookUp_erase, Table.lookUp_erase,
            if_pos rfl, if_pos rfl]
          exact ⟨rfl, rfl⟩
        · intro uri h
          have hne : u ≠ uri := by
            rintro rfl
            exact h hastray
          rw [registry_unschedule, jobs_unschedule_of_ne hne, Table.lookUp_erase, if_neg hne]
          exact ⟨rfl, rfl⟩

/-! ### The two ways of an update -/

/-- Under the flow's own uri, the way round by the notices leaves the old trigger in
    place unless a new one is installed. -/
theorem sameAt_uri_iff (hb : n.Backed) (hs : s.replies.EngineServes) (hactive : n.active = true)
    (h : Spared s n f m) :
    SameAt (m.addFlow s f) ((n.unschedule s f.uri.text).addFlow s f) f.uri.text ↔
      (∃ sch, s.Schedules f sch) ∨ n.jobs[f.uri.text]? = none := by
  have haside : (n.unschedule s f.uri.text).aside s = false :=
    aside_of_active (by rw [active_unschedule, hactive])
  obtain ⟨hr, hj⟩ := h.others f.uri.text fun hastray => hastray.ne rfl
  by_cases hsch : ∃ sch, s.Schedules f sch
  · -- Both ways end with the new trigger.
    obtain ⟨sch, hsch⟩ := hsch
    obtain ⟨hr₁, hj₁⟩ := addFlow_of_schedules hs (aside_of_active h.active) hsch
    obtain ⟨hr₂, hj₂⟩ := addFlow_of_schedules hs haside hsch
    refine iff_of_true ?_ (.inl ⟨sch, hsch⟩)
    rw [SameAt, hr₁, hj₁, hr₂, hj₂]
    simp only [Table.lookUp_insert, if_true]
    exact ⟨trivial, trivial⟩
  · -- Neither way installs one, so what was there makes the difference.
    have hno (sch : Cron.Schedule) : ¬ s.Schedules f sch := fun hs => hsch ⟨sch, hs⟩
    obtain ⟨hr₁, hj₁⟩ := addFlow_of_not_schedules hs (aside_of_active h.active) hno
    obtain ⟨hr₂, hj₂⟩ := addFlow_of_not_schedules hs haside hno
    have hgone : ((n.unschedule s f.uri.text).addFlow s f).registry[f.uri.text]? = none := by
      rcases hr₂ with heq | heq <;> simp [heq]
    rw [SameAt, hj₁, hj₂, jobs_unschedule hs, hj, hgone]
    simp only [Table.lookUp_erase, if_true, Option.map_none, Option.map_eq_none_iff, hsch, false_or]
    constructor
    · exact fun hsame => hsame.2
    · intro hnone
      refine ⟨?_, hnone⟩
      rcases hr₁ with heq | heq
      · rw [heq, hr, hb.registry_eq_none hnone]
      · rw [heq, Table.lookUp_erase, if_pos rfl]

/-- Under another uri, the way round by the notices takes away what is astray. -/
theorem sameAt_other_iff (hb : n.Backed) (h : Spared s n f m) {uri : String}
    (hne : f.uri.text ≠ uri) :
    SameAt (m.addFlow s f) ((n.unschedule s f.uri.text).addFlow s f) uri ↔
      (Astray s n f uri → n.jobs[uri]? = none) := by
  obtain ⟨hr₁, hj₁⟩ := addFlow_of_ne (s := s) (n := m) hne
  obtain ⟨hr₂, hj₂⟩ := addFlow_of_ne (s := s) (n := n.unschedule s f.uri.text) hne
  rw [SameAt, hr₁, hj₁, hr₂, hj₂, registry_unschedule, jobs_unschedule_of_ne hne,
    Table.lookUp_erase, if_neg hne]
  -- What is astray is gone by way of the notices, and kept by the update itself.
  by_cases hastray : Astray s n f uri
  · obtain ⟨hr, hj⟩ := h.astray uri hastray
    rw [hr, hj]
    constructor
    · rintro ⟨_, hjobs⟩ _
      exact Option.map_eq_none_iff.1 hjobs.symm
    · intro hnone
      rw [hb.registry_eq_none (hnone hastray), hnone hastray]
      exact ⟨rfl, rfl⟩
  · obtain ⟨hr, hj⟩ := h.others uri hastray
    rw [hr, hj]
    exact iff_of_true ⟨rfl, rfl⟩ fun habs => absurd habs hastray

/-- Let a leading node, in any state that it can be found in, hear of a flow that the
    catalog holds, and let the engine serve its calls.  The notices that a node on
    standby sends of an update come to what the update itself comes to exactly when
    the update carries over. -/
theorem forwarded_update_iff (hreach : Reachable s n) (hactive : n.active = true)
    (hc : s.catalogued = true) (hs : s.replies.EngineServes)
    (hcat : ∀ k, s.replies.lookUp k f.uri.text = .ok (some (.flow f)))
    (haside : m.aside s' = true) {notices : List Notice}
    (hsent : (m.update s' (.flow f)).sent = m.sent ++ notices) :
    SameSchedule (n.obeyAll s (notices.map .notice)) (n.obey s (.change (.updated (.flow f)))) ↔
      CarriesOver s n f := by
  have hb : n.Backed := .of_reachable hreach
  -- The two notices, and what becomes of them one after the other.
  obtain ⟨i, j, hpair⟩ := sent_update haside f
  obtain rfl := List.append_cancel_left (hsent.symm.trans hpair)
  let spared := n.obey s (.notice (.ofRemoved i f.uri.text f.version.text))
  have hremoval : Spared s n f spared := spared_removal hactive hc hs (hcat _) i
  have hspared : Spared s n f (spared.call (.lookUp f.uri.text)) :=
    ⟨hremoval.active, hremoval.astray, hremoval.others⟩
  have hforwarded : n.obeyAll s
      ([.ofRemoved i f.uri.text f.version.text, .ofAdded j f.uri.text].map .notice) =
        (spared.call (.lookUp f.uri.text)).addFlow s f := by
    show spared.obey s (.notice (.ofAdded j f.uri.text)) = _
    rw [Notice.ofAdded, obey_notice_added hremoval.active hc, hcat]
    rfl
  have happlied : n.obey s (.change (.updated (.flow f))) =
      (n.unschedule s f.uri.text).addFlow s f := by
    rw [obey_updated, update_of_here (aside_of_active hactive)]
    rfl
  rw [hforwarded, happlied, sameSchedule_iff]
  -- Uri by uri, the two ways agree where the update carries over.
  constructor
  · intro h
    refine ⟨(sameAt_uri_iff hb hs hactive hspared).1 (h _), fun uri hastray => ?_⟩
    exact (sameAt_other_iff hb hspared hastray.ne).1 (h uri) hastray
  · intro h uri
    by_cases heq : f.uri.text = uri
    · subst heq
      exact (sameAt_uri_iff hb hs hactive hspared).2 h.replaces
    · exact (sameAt_other_iff hb hspared heq).2 (h.spares uri)

/-- The catalog has nothing but this flow. -/
def Replies.keeping (f : Flow) : Replies :=
  { Replies.reliable with
    lookUp := fun _ uri => .ok (if uri = f.uri.text then some (.flow f) else none) }

/-- A node takes the lead and schedules a flow. -/
def leadWith (f : Flow) : List Turn :=
  [⟨.reliable, .accept (.lead true)⟩, ⟨.reliable, .accept (.change (.added (.flow f)))⟩,
    ⟨.reliable, .advance 0⟩, ⟨.reliable, .advance 0⟩]

private def updatedUri : Label := ⟨"flow://a", Eq.refl false⟩

private def nightly : Flow := timed updatedUri ⟨"1", Eq.refl false⟩ "0 0 * * *"

/-- A version with a colon, and with another schedule. -/
private def hourly : Flow := timed updatedUri ⟨"2:beta", Eq.refl false⟩ "0 * * * *"

/-- A version without a schedule. -/
private def idle : Flow := ⟨updatedUri, ⟨"2", Eq.refl false⟩, none, ∅⟩

/-- An update to another schedule carries over. -/
theorem forwarded_hourly :
    let s : Setup := .plain (.keeping hourly)
    let n := (Busy.start.run s (leadWith nightly)).node
    let notices := (Node.initial.update (.plain .reliable) (.flow hourly)).sent
    SameSchedule (n.obeyAll s (notices.map .notice))
      (n.obey s (.change (.updated (.flow hourly)))) := by
  intro s n notices
  have haside : Node.initial.aside (.plain .reliable) = true := rfl
  refine (forwarded_update_iff ⟨_, rfl⟩ (by decide +kernel) rfl ⟨fun _ _ => rfl, fun _ _ => rfl⟩
    (fun _ => rfl) haside rfl).2 ⟨.inl ?_, ?_⟩
  · decide +kernel
  · intro uri hastray
    -- The only trigger is that of the flow itself, which is never astray.
    have honly : n.jobs.keys = ["flow://a"] := by decide +kernel
    apply Std.ExtTreeMap.getElem?_eq_none
    rw [← Std.ExtTreeMap.mem_keys, honly, List.mem_singleton]
    exact hastray.ne.symm

/-- An update to a version without a schedule does not: the old version stays. -/
theorem not_forwarded_update :
    ¬ ∀ (s : Setup) (n : Node) (f : Flow) (s' : Setup) (m : Node) (notices : List Notice),
      Reachable s n → n.active = true → s.catalogued = true → s.replies.EngineServes →
      (∀ k, s.replies.lookUp k f.uri.text = .ok (some (.flow f))) → m.aside s' = true →
      (m.update s' (.flow f)).sent = m.sent ++ notices →
      SameSchedule (n.obeyAll s (notices.map .notice))
        (n.obey s (.change (.updated (.flow f)))) := by
  intro h
  have hsame := h (.plain (.keeping idle)) _ idle (.plain .reliable) .initial _
    ⟨leadWith nightly, rfl⟩ (by decide +kernel) rfl ⟨fun _ _ => rfl, fun _ _ => rfl⟩ (fun _ => rfl)
    rfl rfl
  -- The notices leave the nightly version registered, and the update itself leaves none.
  exact absurd (congrArg (·["flow://a"]?) hsame.registry) (by decide +kernel)

end FlowCadence.Node
