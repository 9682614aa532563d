import FlowCadence.Leadership.Cluster
import FlowCadence.Proofs.Node.Effect
/-! # One leader

A cluster never has two leading nodes.  A lease is taken by setting a key that is
not there, so at most one member has a lease in its hands, and as long as it has,
its token is what the store holds under the key: nobody else deletes it, and it does
not expire.  A node only leads between being granted a lease and letting go of it,
since its loop makes it step down before it releases the lease.

Links may be down, commands may be refused and answers may be lost, and the tokens of
leases need not be different.

## Key results

* `progress_step`: what a step of one member does to its lease and to the key
* `sober_step`: no step leaves a node leading without a lease
* `Sound.step`: every move of a cluster keeps its invariant
* `one_leader`: at most one node leads, and its token is under the key -/

namespace FlowCadence.Leadership

variable {ι : Type} {root : String}

/-- The key of the lease that the members run for. -/
def leaseKey (root : String) : String := Lease.keyOf root scope

/-- The stages at which a node may lead: it was granted a lease and told to lead, and it
    has not been told to step down since. -/
def Stage.leads : Stage → Bool
  | .loop (.resting (some _)) | .loop (.renewing _) => true
  | .loop (.falling _) | .loop (.leaving _) => true
  | _ => false

/-- At every stage at which a node may lead its loop has a lease. -/
theorem Stage.lease_of_leads {g : Stage} (h : g.leads = true) : g.lease ≠ none := by
  cases g with
  | confirming lease => cases h
  | loop l =>
    cases l with
    | resting held =>
      cases held with
      | none => cases h
      | some lease => exact Option.some_ne_none lease
    | renewing lease | falling lease | leaving lease => exact Option.some_ne_none lease
    | acquiring | rising _ | releasing _ | stopped => cases h

/-! ### One step of the loop -/

section Loop

variable {σ : Type} (s : Node.Setup) (t : Terms) (g : Granter σ) (n : Node) (w : σ)

/-- An answer to an acquisition does not make the node lead yet. -/
theorem active_granted (n : Node) (answer : Except Fault (Option Lease)) :
    (Loop.granted n answer).2.active = n.active := by
  match answer with
  | .ok (some _) | .ok none | .error _ => rfl

/-- Once a lease was asked for, no step brings another one. -/
theorem held_step {l : Loop} (hl : l ≠ .acquiring) {lease : Lease}
    (h : (l.step s t g n w).1.held = some lease) : l.held = some lease := by
  cases l with
  | acquiring => exact absurd rfl hl
  -- A lease that is kept is the one that was renewed.
  | renewing held =>
    simp only [Loop.step] at h
    split at h <;> exact h
  -- Once a lease is released there is none.
  | releasing held =>
    simp only [Loop.step] at h
    split at h <;> cases h
  | resting held | rising held | leaving held => exact h
  | falling held | stopped => cases h

/-- A node that steps down does so before its loop goes where it may not lead. -/
theorem leads_step {l : Loop} (hl : l ≠ .acquiring)
    (h : n.active = true → (Stage.loop l).leads = true)
    (hactive : (l.step s t g n w).2.1.active = true) :
    (Stage.loop (l.step s t g n w).1).leads = true := by
  cases l with
  | acquiring => exact absurd rfl hl
  | renewing held =>
    simp only [Loop.step]
    split <;> rfl
  | releasing held =>
    -- The node has stepped down by now.
    have hidle : ¬ n.active = true := fun hn => Bool.false_ne_true (h hn)
    simp only [Loop.step] at hactive
    split at hactive <;> exact absurd hactive hidle
  | resting held => exact h hactive
  | rising held => rfl
  -- The node was told to step down, so it does not lead.
  | falling held | leaving held =>
    rw [Loop.step, Node.active_lead] at hactive
    cases hactive
  | stopped => exact h hactive

end Loop

/-! ### One member -/

namespace Member

/-- A node only leads at stages where it may. -/
def Sober (m : Member) : Prop := m.node.active = true → m.stage.leads = true

/-- What becomes of the lease of a member and of the text under a key. -/
inductive Progress (key : String) (m m' : Member) (k k' : KeyStore) : Prop where
  /-- The member has no other lease than before, and a text under the key stays. -/
  | keeps (hlease : ∀ lease, m'.stage.lease = some lease → m.stage.lease = some lease)
      (htext : ∀ t, k.get? key = some t → k'.get? key = some t)
  /-- The member has taken the key, which was free. -/
  | takes (lease : Lease) (hlease : m'.stage.lease = some lease) (hfree : k.get? key = none)
      (htext : k'.get? key = some lease.token)
  /-- The member has let go of its lease, and it may have deleted the key. -/
  | yields (hlease : m.stage.lease ≠ none) (hnone : m'.stage.lease = none)

/-- Where no text changes, a member keeps what it had. -/
theorem Progress.of_texts {key : String} {m m' : Member} {k k' : KeyStore}
    (hlease : ∀ lease, m'.stage.lease = some lease → m.stage.lease = some lease)
    (htexts : k'.texts = k.texts) : Progress key m m' k k' :=
  .keeps hlease fun t h => by
    rw [KeyStore.get?, htexts]
    exact h

/-- Nothing but taking and deleting the key touches a text. -/
theorem texts_stride (link : KeyStore.Link) (root unique : String) (m : Member) (k : KeyStore)
    {l : Loop} (hl : l ≠ .acquiring) (hr : ∀ lease, l ≠ .releasing lease) :
    (m.stride link root unique l k).2.texts = k.texts := by
  cases l with
  | acquiring => exact absurd rfl hl
  | releasing lease => exact absurd rfl (hr lease)
  -- A renewal limits the life of a key and writes no text.
  | renewing lease =>
    have htexts := Lease.texts_serve_renew link root unique lease m.terms.leaseSeconds k
    simp only [stride, Loop.step]
    split <;> exact htexts
  | resting _ | rising _ | falling _ | leaving _ | stopped => rfl

/-- One step of a member takes a free key, or lets go of a lease, or leaves the key as it is. -/
theorem progress_step (link : KeyStore.Link) (root unique : String) (m : Member) (k : KeyStore) :
    Progress (leaseKey root) m (m.step link root unique k).1 k (m.step link root unique k).2 := by
  cases hstage : m.stage with
  -- The answer to the second command decides whether the lease is granted.
  | confirming lease =>
    obtain ⟨htexts, hanswer⟩ := Lease.confirm_spec link root lease m.terms.leaseSeconds k
    cases hc : Lease.confirm link root lease m.terms.leaseSeconds k with
    | mk k' answer =>
      rw [hc] at htexts hanswer
      rw [step_confirming hstage hc]
      rcases hanswer with rfl | ⟨fault, rfl⟩
      · -- The lease is granted under the token that the key was taken with.
        refine .of_texts (fun other h => ?_) htexts
        rw [hstage]
        exact h
      · exact .of_texts (fun _ h => absurd h (Option.some_ne_none _).symm) htexts
  -- The member asks for a lease, or it goes on with what it has.
  | loop l =>
    by_cases hl : l = .acquiring
    · subst hl
      obtain ⟨hkept, htaken⟩ :=
        Lease.attempt_spec link root unique scope m.terms.holder m.terms.leaseSeconds k
      cases ha : Lease.attempt link root unique scope m.terms.holder m.terms.leaseSeconds k with
      | mk k' answer =>
        rw [ha] at hkept htaken
        rw [step_acquiring hstage ha]
        match answer with
        | .ok (some lease) =>
          obtain ⟨hfree, htext⟩ := htaken lease rfl
          exact .takes lease rfl hfree htext
        | .ok none | .error fault =>
          -- The key may have been taken all the same, which nobody will know.
          exact .keeps (fun _ h => absurd h (Option.some_ne_none _).symm) (hkept _)
    · rw [step_loop hstage hl]
      -- Only a release deletes the key.
      by_cases hr : ∃ lease, l = .releasing lease
      · obtain ⟨lease, rfl⟩ := hr
        refine .yields (by rw [hstage]; exact Option.some_ne_none lease) ?_
        simp only [stride, Loop.step]
        split <;> rfl
      · have htexts := texts_stride link root unique m k hl fun lease heq => hr ⟨lease, heq⟩
        refine .of_texts (fun other h => ?_) htexts
        rw [hstage]
        exact held_step m.setup m.terms ⟨Lease.serve link root unique⟩ m.node k hl h

/-- A step leaves no node leading without a lease. -/
theorem sober_step (link : KeyStore.Link) (root unique : String) {m : Member} (hm : m.Sober)
    (k : KeyStore) : (m.step link root unique k).1.Sober := by
  cases hstage : m.stage with
  -- While an acquisition is under way the node does not lead.
  | confirming lease =>
    rw [step_confirming hstage rfl]
    intro hactive
    have hleads := hm ((active_granted m.node _).symm.trans hactive)
    rw [hstage] at hleads
    cases hleads
  | loop l =>
    by_cases hl : l = .acquiring
    · subst hl
      -- The node does not lead yet, and it does not start to.
      have hidle : ¬ m.node.active = true := by
        intro hactive
        have hleads := hm hactive
        rw [hstage] at hleads
        cases hleads
      rw [step_acquiring hstage rfl]
      intro hactive
      split at hactive
      · exact absurd hactive hidle
      · exact absurd ((active_granted _ _).symm.trans hactive) hidle
    · rw [step_loop hstage hl]
      have hleads (h : m.node.active = true) : (Stage.loop l).leads = true := by
        rw [← hstage]
        exact hm h
      exact leads_step m.setup m.terms ⟨Lease.serve link root unique⟩ m.node k hl hleads

/-- Ticks and stops find the member with the lease that it had. -/
theorem lease_prompt {f : Loop → Loop} (hf : ∀ l, (f l).held = l.held) (m : Member) :
    (m.prompt f).stage.lease = m.stage.lease := by
  unfold prompt
  split
  · next l hstage =>
    rw [hstage]
    exact hf l
  · rfl

/-- Ticks and stops leave no node leading without a lease. -/
theorem sober_prompt {f : Loop → Loop}
    (hf : ∀ l, (Stage.loop l).leads = true → (Stage.loop (f l)).leads = true) {m : Member}
    (hm : m.Sober) : (m.prompt f).Sober := by
  unfold prompt
  split
  · next l hstage =>
    intro hactive
    refine hf l ?_
    rw [← hstage]
    exact hm hactive
  · exact hm

end Member

/-- A loop that is woken has the lease that it had. -/
theorem Loop.held_wake (l : Loop) : l.wake.held = l.held := by
  unfold wake
  split <;> rfl

/-- So has one that is told to stop. -/
theorem Loop.held_quit (l : Loop) : l.quit.held = l.held := by
  unfold quit
  split <;> rfl

/-- A loop that is woken goes to a stage where the node may lead, if it might before. -/
theorem Loop.leads_wake (l : Loop) (h : (Stage.loop l).leads = true) :
    (Stage.loop l.wake).leads = true := by
  unfold wake
  split
  · cases h
  · rfl
  · exact h

/-- So does one that is told to stop. -/
theorem Loop.leads_quit (l : Loop) (h : (Stage.loop l).leads = true) :
    (Stage.loop l.quit).leads = true := by
  unfold quit
  split
  · cases h
  · rfl
  · exact h

/-! ### The cluster -/

/-- What every move keeps: at most one member has a lease in its hands, its token is
    under the key, and no node leads without one. -/
structure Sound (root : String) (c : Cluster ι) : Prop where
  held : ∀ i lease, (c.members i).stage.lease = some lease →
    c.store.get? (leaseKey root) = some lease.token
  alone : ∀ i j, (c.members i).stage.lease ≠ none → (c.members j).stage.lease ≠ none → i = j
  sober : ∀ i, (c.members i).Sober

namespace Sound

variable {c : Cluster ι}

/-- In the beginning no member has a lease and no node leads. -/
theorem start (root : String) (crew : ι → Node.Setup × Terms) (store : KeyStore) :
    Sound root (.start crew store) where
  held _ _ h := by cases h
  alone _ _ h _ := absurd rfl h
  sober _ h := by cases h

/-- No other member has a lease beside one that has. -/
theorem lease_eq_none (h : Sound root c) {i j : ι} (hi : (c.members i).stage.lease ≠ none)
    (hne : j ≠ i) : (c.members j).stage.lease = none := by
  cases hj : (c.members j).stage.lease with
  | none => rfl
  | some lease =>
    have hsome : (c.members j).stage.lease ≠ none := by
      rw [hj]
      exact Option.some_ne_none lease
    exact absurd (h.alone j i hsome hi) hne

/-- No member has a lease while the key is free. -/
theorem lease_eq_none_of_free (h : Sound root c)
    (hfree : c.store.get? (leaseKey root) = none) (j : ι) : (c.members j).stage.lease = none := by
  cases hj : (c.members j).stage.lease with
  | none => rfl
  | some lease =>
    rw [h.held j lease hj] at hfree
    cases hfree

/-- The others have no lease that the progress of a member takes away, and none beside
    the one that it brings. -/
theorem progress (h : Sound root c) {i : ι} {m : Member} {store : KeyStore}
    (hp : (c.members i).Progress (leaseKey root) m c.store store) :
    (∀ lease, m.stage.lease = some lease → store.get? (leaseKey root) = some lease.token) ∧
      (∀ j lease, j ≠ i → (c.members j).stage.lease = some lease →
        store.get? (leaseKey root) = some lease.token) ∧
      (m.stage.lease ≠ none → ∀ j, j ≠ i → (c.members j).stage.lease = none) := by
  cases hp with
  -- The lease of the member is one that it had, and texts stay.
  | keeps hlease htext =>
    refine ⟨fun lease hm => ?_, fun j lease _ hj => ?_, fun hm j hne => ?_⟩
    · exact htext _ (h.held i lease (hlease lease hm))
    · exact htext _ (h.held j lease hj)
    · refine h.lease_eq_none (fun hi => hm ?_) hne
      cases hl : m.stage.lease with
      | none => rfl
      | some lease =>
        rw [hlease lease hl] at hi
        cases hi
  -- The key was free, so nobody had a lease.
  | takes lease hlease hfree htext =>
    refine ⟨fun other hm => ?_, fun j other _ hj => ?_, fun _ j _ => ?_⟩
    · rw [hlease] at hm
      cases hm
      exact htext
    · rw [h.lease_eq_none_of_free hfree j] at hj
      cases hj
    · exact h.lease_eq_none_of_free hfree j
  -- The member had the lease, so nobody else has one.
  | yields hlease hnone =>
    refine ⟨fun other hm => ?_, fun j other hne hj => ?_, fun hm => absurd hnone hm⟩
    · rw [hnone] at hm
      cases hm
    · rw [h.lease_eq_none hlease hne] at hj
      cases hj

variable [DecidableEq ι]

/-- A member that makes progress leaves the cluster sound. -/
theorem put (h : Sound root c) {i : ι} {m : Member} {store : KeyStore}
    (hp : (c.members i).Progress (leaseKey root) m c.store store) (hm : m.Sober) :
    Sound root (c.put i m store) := by
  have hself : (c.put i m store).members i = m := if_pos rfl
  have hother (j : ι) (hne : j ≠ i) : (c.put i m store).members j = c.members j := if_neg hne
  obtain ⟨hheld, hothers, halone⟩ := h.progress hp
  -- The member is the one that has gone on, or it is another one.
  refine ⟨fun j lease hj => ?_, fun a b ha hb => ?_, fun j => ?_⟩
  · by_cases hji : j = i
    · subst hji
      rw [hself] at hj
      exact hheld lease hj
    · rw [hother j hji] at hj
      exact hothers j lease hji hj
  -- Two members with leases: both are this one, or one of them is, or neither.
  · by_cases hai : a = i
    · by_cases hbi : b = i
      · rw [hai, hbi]
      · rw [hai, hself] at ha
        rw [hother b hbi] at hb
        exact absurd (halone ha b hbi) hb
    · rw [hother a hai] at ha
      by_cases hbi : b = i
      · rw [hbi, hself] at hb
        exact absurd (halone hb a hai) ha
      · rw [hother b hbi] at hb
        exact h.alone a b ha hb
  · by_cases hji : j = i
    · rw [hji, hself]
      exact hm
    · rw [hother j hji]
      exact h.sober j

/-- Every move keeps the cluster sound. -/
theorem step (h : Sound root c) (move : Cluster.Move ι) : Sound root (c.step root move) := by
  cases move with
  -- Ticks and stops change neither leases nor the store.
  | wake i =>
    refine h.put (.of_texts (fun lease hl => ?_) rfl)
      (Member.sober_prompt Loop.leads_wake (h.sober i))
    rw [← Member.lease_prompt Loop.held_wake]
    exact hl
  | quit i =>
    refine h.put (.of_texts (fun lease hl => ?_) rfl)
      (Member.sober_prompt Loop.leads_quit (h.sober i))
    rw [← Member.lease_prompt Loop.held_quit]
    exact hl
  | step i link unique =>
    exact h.put (Member.progress_step link root unique _ _)
      (Member.sober_step link root unique (h.sober i) _)
  -- Whatever else a node does, it does not make it lead.
  | work i a =>
    refine h.put (.of_texts (fun _ hl => hl) rfl) fun hactive => h.sober i ?_
    exact (Node.active_activity_step _ a _).symm.trans hactive

/-- Every run keeps the cluster sound, by induction on its moves. -/
theorem run (h : Sound root c) (moves : List (Cluster.Move ι)) : Sound root (c.run root moves) :=
  List.foldlRecOn (motive := Sound root) moves _ h fun _ hc move _ => hc.step move

end Sound

/-- However the members of a cluster act, and whatever becomes of their commands to the
    store, at most one of their nodes leads, and the token of its lease is what the
    store holds under the key. -/
theorem one_leader [DecidableEq ι] (root : String) (crew : ι → Node.Setup × Terms)
    (store : KeyStore) (moves : List (Cluster.Move ι)) :
    let c := (Cluster.start crew store).run root moves
    (∀ i j, (c.members i).node.active = true → (c.members j).node.active = true → i = j) ∧
      ∀ i, (c.members i).node.active = true →
        ∃ lease, (c.members i).stage.lease = some lease ∧
          c.store.get? (Lease.keyOf root scope) = some lease.token := by
  intro c
  have hsound : Sound root c := (Sound.start root crew store).run moves
  -- Whoever leads has a lease, and only one member has one.
  have hlease (i : ι) (h : (c.members i).node.active = true) : (c.members i).stage.lease ≠ none :=
    Stage.lease_of_leads (hsound.sober i h)
  refine ⟨fun i j hi hj => hsound.alone i j (hlease i hi) (hlease j hj), fun i hi => ?_⟩
  obtain ⟨lease, heq⟩ := Option.ne_none_iff_exists'.1 (hlease i hi)
  exact ⟨lease, heq, hsound.held i lease heq⟩

/-- A member leads after the one before it has stopped, and not earlier. -/
example :
    let crew (i : Bool) : Node.Setup × Terms := (.plain .reliable, ⟨toString i, 30⟩)
    let go (i : Bool) : Cluster.Move Bool := .step i (.up fun _ => .answered) "1"
    let first := (Cluster.start crew .empty).run "shared"
      [.wake false, .wake true, go false, go true, go false, go false, .wake true, go true]
    let second := first.run "shared"
      [.quit false, go false, .wake true, go true, go false, .wake true, go true, go true, go true]
    (first.members false).node.active = true ∧ (first.members true).node.active = false ∧
      (second.members false).node.active = false ∧ (second.members true).node.active = true := by
  decide +kernel

end FlowCadence.Leadership
