import FlowCadence.Proofs.Node.ForwardedUpdate
import FlowCadence.Proofs.Node.Slot
import FlowCadence.Proofs.Notice.Wire
/-! # Forwarded deletions

A node on standby that hears of a deleted flow sends a notice with the uri and the version,
a colon between them.  The leading node takes what stands behind the last colon for the
version, asks its catalog about the rest, and unschedules that where the catalog does not
hold it.

A version without a colon comes out as it went in, and then just the deleted flow goes.  A
version with a colon makes the uri longer: the deleted flow stays, and a flow under the
longer uri goes in its place.

## Key results

* `sent_delete`: which notice is sent
* `vanished_obey_removed_iff`: what the leading node makes of it
* `forwarded_deletion_iff`: when just the deleted flow goes -/

namespace FlowCadence.Node

variable {s s' : Setup} {n m : Node} {uri version : Label}

/-- The flow of a uri is neither registered nor triggered any more, and under every other
    uri nothing has changed. -/
structure Vanished (uri : String) (n n' : Node) : Prop where
  gone : n'.EmptyAt uri
  others : ∀ a, uri ≠ a → n'.registry[a]? = n.registry[a]? ∧ n'.jobs[a]? = n.jobs[a]?

/-- A uri that a removal of this version is taken to name in place of the flow's own: it
    goes on up to the last colon of the version. -/
def Misread (uri version : Label) (a : String) : Prop :=
  ∃ p v, version.text = p ++ ":" ++ v ∧ ':' ∉ v.toList ∧ Text.isBlank v = false ∧
    a = uri.text ++ ":" ++ p

/-! ### What is sent -/

/-- A node that stands aside sends one removal of a deleted flow. -/
theorem sent_delete (haside : m.aside s' = true) (uri version : String) :
    ∃ i, (m.obey s' (.change (.deleted uri version))).sent =
      m.sent ++ [.ofRemoved i uri version] := by
  -- Who stands aside is part of a cluster.
  have hc : s'.clustered = true := (aside_eq_true_iff.1 haside).2
  have hreact : Activity.step s' (.react (.deleted uri version) []) m =
      (m.forwardRemoved s' uri version, some (.tell (.deleted uri version) [])) := by
    simp [Activity.step, delete, haside]
  refine ⟨s'.noticeId m, ?_⟩
  rw [obey, Activity.perform, Activity.performAround, Activity.rank,
    Activity.performWithin_of_some hreact, Activity.performWithin_of_none rfl]
  exact sent_forward hc _ _ _

/-! ### What the notice names -/

/-- A version without a colon is read as it was written. -/
theorem removal_ofRemoved (hcolon : ':' ∉ version.text.toList) (i : Identifier) :
    Notice.removal (.ofRemoved i uri.text version.text) = .ok (uri.text, version.text) :=
  Notice.removal_ofRemoved_eq_ok_iff.2
    ⟨.inl ⟨rfl, rfl⟩, hcolon, uri.text_not_blank, version.text_not_blank⟩

/-- A uri with something behind it is not blank. -/
private theorem isBlank_append (uri : Label) (t : String) :
    Text.isBlank (uri.text ++ t) = false := by
  have huri := uri.text_not_blank
  simp only [Text.isBlank, String.toList_append, List.all_append] at huri ⊢
  rw [huri]
  rfl

/-- The removal of the flow names a uri that is misread. -/
theorem Misread.removal {a : String} (h : Misread uri version a) (i : Identifier) :
    ∃ v, Notice.removal (.ofRemoved i uri.text version.text) = .ok (a, v) := by
  obtain ⟨p, v, hversion, hcolon, hblank, rfl⟩ := h
  refine ⟨v, Notice.removal_ofRemoved_eq_ok_iff.2 ⟨.inr ⟨p, rfl, hversion⟩, hcolon, ?_, hblank⟩⟩
  rw [String.append_assoc]
  exact isBlank_append uri _

/-- What a notice names is the deleted flow, or a uri that is misread. -/
theorem eq_or_misread {i : Identifier} {a v : String}
    (h : Notice.removal (.ofRemoved i uri.text version.text) = .ok (a, v)) :
    (a = uri.text ∧ ':' ∉ version.text.toList) ∨
      (uri.text ≠ a ∧ ':' ∈ version.text.toList ∧ Misread uri version a) := by
  obtain ⟨⟨rfl, rfl⟩ | ⟨p, rfl, hversion⟩, hcolon, -, hblank⟩ :=
    Notice.removal_ofRemoved_eq_ok_iff.1 h
  · exact .inl ⟨rfl, hcolon⟩
  · right
    refine ⟨fun heq => ?_, by simp [hversion], p, v, hversion, hcolon, hblank, rfl⟩
    -- The misread uri is longer.
    have hlength := congrArg String.length heq
    simp only [String.length_append] at hlength
    have hone : (":" : String).length = 1 := rfl
    omega

/-! ### What becomes of the flow -/

/-- Where nothing changes, the flow is gone if it was not there. -/
theorem vanished_iff_of_tables {n' : Node} {uri : String} (hr : n'.registry = n.registry)
    (hj : n'.jobs = n.jobs) : Vanished uri n n' ↔ n.EmptyAt uri := by
  have hempty : n'.EmptyAt uri ↔ n.EmptyAt uri := by
    rw [EmptyAt, EmptyAt, hr, hj]
  constructor
  · intro h
    exact hempty.1 h.gone
  · intro h
    exact ⟨hempty.2 h, fun a _ => by rw [hr, hj]; exact ⟨rfl, rfl⟩⟩

/-- Unscheduling a flow does for that flow; for another one it does if neither was there. -/
theorem vanished_unschedule_iff (hs : s.replies.EngineServes) {uri a : String} :
    Vanished uri n (n.unschedule s a) ↔ uri = a ∨ (n.EmptyAt uri ∧ n.EmptyAt a) := by
  have hother {b : String} (hne : a ≠ b) :
      (n.unschedule s a).registry[b]? = n.registry[b]? ∧
        (n.unschedule s a).jobs[b]? = n.jobs[b]? := by
    rw [registry_unschedule, Table.lookUp_erase, if_neg hne]
    exact ⟨rfl, jobs_unschedule_of_ne hne⟩
  by_cases heq : uri = a
  · subst heq
    simp only [true_or, iff_true]
    exact ⟨emptyAt_unschedule hs uri, fun b hne => hother hne⟩
  · simp only [heq, false_or]
    -- Under the uri itself unscheduling leaves nothing, and it does not reach any other.
    have huri : (n.unschedule s a).EmptyAt uri ↔ n.EmptyAt uri := by
      obtain ⟨hr, hj⟩ := hother fun h : a = uri => heq h.symm
      rw [EmptyAt, EmptyAt, hr, hj]
    have ha := emptyAt_unschedule hs a (n := n)
    constructor
    · intro h
      obtain ⟨hr, hj⟩ := h.others a heq
      exact ⟨huri.1 h.gone, hr ▸ ha.1, hj ▸ ha.2⟩
    · rintro ⟨hempty, hr, hj⟩
      refine ⟨huri.2 hempty, fun b _ => ?_⟩
      by_cases hb : a = b
      · subst hb
        exact ⟨ha.1.trans hr.symm, ha.2.trans hj.symm⟩
      · exact hother hb

/-- A question to the catalog changes nothing. -/
theorem vanished_asked_iff {n' : Node} {uri a : String} :
    Vanished uri (n.asked s a) n' ↔ Vanished uri n n' := by
  have hsame : (n.asked s a).registry = n.registry ∧ (n.asked s a).jobs = n.jobs :=
    ⟨asked_registry s a n, asked_jobs s a n⟩
  constructor
  · intro h
    exact ⟨h.gone, fun b hne => by rw [← hsame.1, ← hsame.2]; exact h.others b hne⟩
  · intro h
    exact ⟨h.gone, fun b hne => by rw [hsame.1, hsame.2]; exact h.others b hne⟩

/-- A removal that reaches a leading node whose catalog does not hold the flow makes just
    that flow vanish if the version has no colon.  If it has one, the flow must not have
    been there, nor any that is misread and that the catalog does not hold. -/
theorem vanished_obey_removed_iff (hactive : n.active = true) (hs : s.replies.EngineServes)
    (hcat : n.answer s uri.text = .ok none) (i : Identifier) :
    Vanished uri.text n (n.obey s (.notice (.ofRemoved i uri.text version.text))) ↔
      ':' ∉ version.text.toList ∨
        (n.EmptyAt uri.text ∧
          ∀ a, Misread uri version a → n.answer s a = .ok none → n.EmptyAt a) := by
  cases hm : Notice.removal (.ofRemoved i uri.text version.text) with
  | error refusal =>
    -- The notice names nothing, so the version has a colon and nothing is misread either.
    have hcolon : ':' ∈ version.text.toList := by
      apply Decidable.byContradiction
      intro hcolon
      rw [removal_ofRemoved hcolon] at hm
      cases hm
    have hnone (a : String) : ¬ Misread uri version a := by
      intro h
      obtain ⟨v, hok⟩ := h.removal i
      rw [hm] at hok
      cases hok
    rw [Notice.ofRemoved] at hm ⊢
    rw [obey_notice_malformed hactive hm, vanished_iff_of_tables (by simp) (by simp)]
    simp [hcolon, hnone]
  | ok sides =>
    obtain ⟨a, v⟩ := sides
    -- A notice names one uri at most, so no other can be misread.
    have hunique {b : String} (hb : Misread uri version b) : b = a := by
      obtain ⟨_, hok⟩ := hb.removal i
      rw [hm] at hok
      cases hok
      rfl
    have hread := eq_or_misread hm
    rw [Notice.ofRemoved] at hm ⊢
    rw [obey_removed hactive hm]
    rcases hread with ⟨rfl, hcolon⟩ | ⟨hne, hcolon, hmisread⟩
    · -- The notice names the flow, and the catalog does not hold it.
      rw [hcat, ← vanished_asked_iff (s := s) (a := uri.text), vanished_unschedule_iff hs]
      simp [hcolon]
    · -- The notice names another uri, and what the catalog says about that one counts.
      have hmisreads : (∀ b, Misread uri version b → n.answer s b = .ok none → n.EmptyAt b) ↔
          (n.answer s a = .ok none → n.EmptyAt a) := by
        constructor
        · intro h
          exact h a hmisread
        · intro h b hb
          rw [hunique hb]
          exact h
      have hasked : (n.asked s a).EmptyAt a ↔ n.EmptyAt a := by simp [EmptyAt]
      have hasked' : (n.asked s a).EmptyAt uri.text ↔ n.EmptyAt uri.text := by simp [EmptyAt]
      rw [hmisreads]
      rcases n.answer s a with fault | _ | spec
      · rw [vanished_iff_of_tables (by simp) (by simp)]
        simp [hcolon]
      · rw [← vanished_asked_iff (s := s) (a := a), vanished_unschedule_iff hs, hasked, hasked']
        simp [hcolon, hne]
      · rw [vanished_iff_of_tables (by simp) (by simp)]
        simp [hcolon]

/-- Let a node on standby in a cluster hear of a deleted flow, let what it sends be written
    and read on the way, and let a leading node take it whose catalog does not hold the flow
    and whose engine serves its calls.  Then the flow is neither registered nor triggered
    there any more, and nothing has changed under another uri, exactly when the version has
    no colon, or there was nothing to go: neither the flow itself nor, under a uri that is
    misread, one that the catalog does not hold. -/
theorem forwarded_deletion_iff (hactive : n.active = true) (hs : s.replies.EngineServes)
    (hcat : n.answer s uri.text = .ok none) (haside : m.aside s' = true) {notices : List Notice}
    (hsent : (m.obey s' (.change (.deleted uri.text version.text))).sent = m.sent ++ notices) :
    Vanished uri.text n
        (n.obeyAll s ((Notice.ofTexts (notices.map Notice.encode)).notices.map .notice)) ↔
      ':' ∉ version.text.toList ∨
        (n.EmptyAt uri.text ∧
          ∀ a, Misread uri version a → n.answer s a = .ok none → n.EmptyAt a) := by
  obtain ⟨i, hone⟩ := sent_delete haside uri.text version.text
  obtain rfl := List.append_cancel_left (hsent.symm.trans hone)
  rw [Notice.ofTexts_encode]
  exact vanished_obey_removed_iff hactive hs hcat i

private def shortUri : Label := ⟨"flow://c", Eq.refl false⟩

/-- A uri that goes on with what could be a version. -/
private def longerUri : Label := ⟨"flow://c:1", Eq.refl false⟩

private def plainVersion : Label := ⟨"1", Eq.refl false⟩

/-- A version that has a colon, as a tag may have. -/
private def taggedVersion : Label := ⟨"1:stable", Eq.refl false⟩

/-- A node leads and has both flows scheduled, while nothing is left of them in its catalog. -/
private def keepsBoth : Node :=
  ((Node.initial.lead (.plain .reliable) true).add (.plain .reliable)
    (.flow (timed shortUri taggedVersion "0 0 * * *"))).add (.plain .reliable)
    (.flow (timed longerUri plainVersion "0 6 * * *"))

/-- The catalog of this node answers with what it holds. -/
private theorem answer_keepsBoth {uri : String} (h : keepsBoth.catalog.get? uri = none) :
    keepsBoth.answer (.plain .reliable) uri = .ok none :=
  congrArg Except.ok h

/-- The flow with the longer uri is deleted, and only that one goes. -/
theorem forwarded_deletion_longer :
    let s : Setup := .plain .reliable
    let notices := (Node.initial.obey s (.change (.deleted "flow://c:1" "1"))).sent
    let n := keepsBoth.obeyAll s ((Notice.ofTexts (notices.map Notice.encode)).notices.map .notice)
    keepsBoth.installed = ["flow://c", "flow://c:1"] ∧ Vanished "flow://c:1" keepsBoth n := by
  intro s notices n
  have hcat : keepsBoth.answer s longerUri.text = .ok none := answer_keepsBoth (by decide +kernel)
  have hsent : (Node.initial.obey s (.change (.deleted longerUri.text plainVersion.text))).sent =
      Node.initial.sent ++ notices := rfl
  constructor
  · decide +kernel
  · exact (forwarded_deletion_iff (by decide +kernel) Replies.reliable_engineServes hcat
      rfl hsent).2 (.inl (by decide))

/-- The flow with the tagged version is deleted, and the other one goes in its place. -/
theorem not_forwarded_deletion :
    ¬ ∀ (s : Setup) (n : Node) (uri version : Label) (s' : Setup) (m : Node)
        (notices : List Notice), n.active = true → s.replies.EngineServes →
      n.answer s uri.text = .ok none → m.aside s' = true →
      (m.obey s' (.change (.deleted uri.text version.text))).sent = m.sent ++ notices →
      Vanished uri.text n
        (n.obeyAll s ((Notice.ofTexts (notices.map Notice.encode)).notices.map .notice)) := by
  intro h
  let s : Setup := .plain .reliable
  let notices := (Node.initial.obey s (.change (.deleted shortUri.text taggedVersion.text))).sent
  have hcat : keepsBoth.answer s shortUri.text = .ok none := answer_keepsBoth (by decide +kernel)
  have hvanished := h s keepsBoth shortUri taggedVersion s .initial notices (by decide +kernel)
    Replies.reliable_engineServes hcat rfl rfl
  rw [Notice.ofTexts_encode] at hvanished
  -- The flow itself is registered still.
  exact absurd hvanished.gone.1 (by decide +kernel)

end FlowCadence.Node
