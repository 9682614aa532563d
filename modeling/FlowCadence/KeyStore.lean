import FlowCadence.Fault
import FlowCadence.Properties
/-! # The shared key store

Nodes share a store of texts under keys.  A key holds one text, which may have a
time to live, or a list, which is pushed to at one end and popped from at the other.
Nodes push texts, but the store takes whatever bytes it is sent by others, so an
entry of a list need not be a text.  The store carries out one command at a time.

A client reaches the store over a link that may be down.  A single command may come
to nothing, or the answer to it may be lost after it has been carried out.

* `getElem?_setAbsent`   a key that is there keeps its text
* `send_setAbsent`       so it does when the command or its answer is lost
* `texts_send`           what sets and erases no text leaves the texts alone
* `texts_ifHolds`        also behind a condition
* `entry_setAbsent`, `entry_expire`   what becomes of the text under a key and of its life
* `entry_delete`, `entry_ifHolds`   also when it is deleted, and behind a condition
* `list_push`, `list_pop`   where a list grows, and where it loses entries -/

namespace FlowCadence

/-- An entry of a list. -/
structure KeyStore.Entry where
  bytes : ByteArray

namespace KeyStore.Entry

/-- An entry is its bytes. -/
theorem eq_iff_bytes {e e' : Entry} : e = e' ↔ e.bytes = e'.bytes := by
  cases e; cases e'; simp

/-- Two entries are compared byte by byte. -/
instance : DecidableEq Entry := fun e e' =>
  @decidable_of_iff' _ _ eq_iff_bytes (ByteArray.instDecidableEq e.bytes e'.bytes)

/-- The entry that a text is pushed as: its bytes in UTF-8. -/
def ofText (t : String) : Entry := ⟨t.toUTF8⟩

/-- The text of an entry, unless its bytes are not UTF-8. -/
def text? (e : Entry) : Option String := String.fromUTF8? e.bytes

/-- The bytes of a text are read as that text. -/
@[simp] theorem text?_ofText (t : String) : (ofText t).text? = some t := by
  simp only [text?, ofText, String.fromUTF8?, String.toUTF8_eq_toByteArray, dif_pos t.isValidUTF8]
  rfl

end KeyStore.Entry

/-- What a client can ask of the store. -/
inductive KeyStore.Command where
  /-- Set a key that is not there yet. -/
  | setAbsent (key value : String)
  /-- Limit the life of a key. -/
  | expire (key : String) (seconds : Nat)
  | get (key : String)
  | delete (key : String)
  /-- Push a text to the far end of a list. -/
  | push (key value : String)
  /-- Pop up to `count` entries from the near end of a list. -/
  | pop (key : String) (count : Nat)
  deriving DecidableEq, Repr

/-- What the shared store holds. -/
structure KeyStore where
  texts : Table String
  /-- The seconds that a key has left to live, where they are limited. -/
  lives : Table Nat
  /-- The entries of each list, as bytes. -/
  lists : Table (List KeyStore.Entry)
  /-- The commands that the store was sent, in their order. -/
  sent : List KeyStore.Command
  deriving DecidableEq

namespace KeyStore

/-- The store that holds nothing and was sent nothing. -/
def empty : KeyStore := ⟨∅, ∅, ∅, []⟩

/-- The words of a command on the wire. -/
def Command.words : Command → List String
  | .setAbsent key value => ["SETNX", key, value]
  | .expire key seconds => ["EXPIRE", key, toString seconds]
  | .get key => ["GET", key]
  | .delete key => ["DEL", key]
  | .push key value => ["RPUSH", key, value]
  | .pop key count => ["LPOP", key, toString count]

/-- What the store answers. -/
inductive Reply where
  | number (n : Nat)
  | text (t : Option String)
  | entries (es : List Entry)
  deriving DecidableEq

/-- The text under a key. -/
def get? (k : KeyStore) (key : String) : Option String := k.texts[key]?

/-- The list under a key; there are no empty lists, so a missing one is empty. -/
def list (k : KeyStore) (key : String) : List Entry := k.lists[key]?.getD []

/-- The store with a list under a key. -/
def setList (k : KeyStore) (key : String) (es : List Entry) : KeyStore :=
  { k with lists := if es.isEmpty then k.lists.erase key else k.lists.insert key es }

/-- The store with an entry more at the far end of a list. -/
def append (k : KeyStore) (key : String) (entry : Entry) : KeyStore :=
  k.setList key (k.list key ++ [entry])

/-- The store without the text under a key. -/
def erase (k : KeyStore) (key : String) : KeyStore :=
  { k with texts := k.texts.erase key, lives := k.lives.erase key }

/-- Carries out a command. -/
def carryOut (k : KeyStore) : Command → KeyStore × Reply
  | .setAbsent key value =>
    if k.texts.contains key then (k, .number 0)
    else ({ k with texts := k.texts.insert key value }, .number 1)
  | .expire key seconds =>
    if k.texts.contains key then ({ k with lives := k.lives.insert key seconds }, .number 1)
    else (k, .number 0)
  | .get key => (k, .text (k.get? key))
  | .delete key => (k.erase key, .number (if k.texts.contains key then 1 else 0))
  | .push key value =>
    let k := k.append key (.ofText value)
    (k, .number (k.list key).length)
  | .pop key count =>
    (k.setList key ((k.list key).drop count), .entries ((k.list key).take count))

/-- What becomes of a single command. -/
inductive Fate where
  /-- It is carried out and answered. -/
  | answered
  /-- It is not carried out, for this reason. -/
  | refused (reason : String)
  /-- It is carried out, and the answer is lost for this reason. -/
  | unanswered (reason : String)
  deriving DecidableEq, Repr

/-- How a client reaches the store. -/
inductive Link where
  | down (reason : String)
  | up (fate : Command → Fate)

/-- What becomes of single commands over a link.  None is carried out over a link that
    has gone down. -/
def Link.fate : Link → Command → Fate
  | .down reason, _ => .refused reason
  | .up fate, c => fate c

/-- The fault of a link that is down. -/
def unreachable (reason : String) : Fault := .unavailable ("failed to connect to redis: " ++ reason)

/-- Sends a command, which is carried out as its fate has it. -/
def send (fate : Command → Fate) (c : Command) (k : KeyStore) : KeyStore × Except String Reply :=
  let k := { k with sent := k.sent ++ [c] }
  match fate c with
  | .answered =>
    let (k, reply) := k.carryOut c
    (k, .ok reply)
  | .refused reason => (k, .error reason)
  | .unanswered reason => ((k.carryOut c).1, .error reason)

/-- Carries out `act` if the text under `key` is `expected`.  Both are one command to
    the store, so nothing comes between them.  The answer of `act` counts, and zero
    if it is not carried out. -/
def ifHolds (fate : Command → Fate) (key expected : String) (act : Command) (k : KeyStore) :
    KeyStore × Except String Nat :=
  match send fate (.get key) k with
  | (k, .error reason) => (k, .error reason)
  | (k, .ok reply) =>
    if reply = .text (some expected) then
      match send fate act k with
      | (k, .error reason) => (k, .error reason)
      | (k, .ok (.number n)) => (k, .ok n)
      | (k, .ok _) => (k, .ok 0)
    else (k, .ok 0)

/-- Whether there is a text is read off the look-up. -/
theorem contains_texts (k : KeyStore) (key : String) :
    k.texts.contains key = (k.get? key).isSome :=
  Std.ExtTreeMap.contains_eq_isSome_getElem?

/-- A value is set only where there is none yet. -/
theorem getElem?_setAbsent (k : KeyStore) (key value other : String) :
    (k.carryOut (.setAbsent key value)).1.get? other =
      if key = other ∧ k.get? key = none then some value else k.get? other := by
  cases h : k.get? key with
  | some t => simp [carryOut, contains_texts, h]
  | none =>
    simp only [carryOut, contains_texts, h, Option.isSome_none, Bool.false_eq_true, if_false, and_true]
    simp [get?, Std.ExtTreeMap.getElem?_insert]

/-- Every command that is sent goes on record, whatever becomes of it. -/
theorem sent_send (fate : Command → Fate) (c : Command) (k : KeyStore) :
    (send fate c k).1.sent = k.sent ++ [c] := by
  have hcarried (k : KeyStore) : (k.carryOut c).1.sent = k.sent := by
    cases c with
    | setAbsent key value | expire key seconds =>
      rw [carryOut]
      split <;> rfl
    | get key | delete key | push key value | pop key count => rfl
  rw [send]
  dsimp only
  split
  · exact hcarried _
  · rfl
  · exact hcarried _

/-- Commands that set and erase no text, whatever becomes of them. -/
def Command.sparesTexts : Command → Bool
  | .setAbsent .. | .delete _ => false
  | .expire .. | .get _ | .push .. | .pop .. => true

/-- A command that does not concern texts leaves them as they are. -/
theorem texts_carryOut {c : Command} (h : c.sparesTexts = true) (k : KeyStore) :
    (k.carryOut c).1.texts = k.texts := by
  cases c with
  | setAbsent _ _ | delete _ => cases h
  | get _ | push _ _ | pop _ _ => rfl
  | expire key seconds =>
    rw [carryOut]
    split <;> rfl

/-- So it does if something goes wrong with it. -/
theorem texts_send {c : Command} (h : c.sparesTexts = true) (fate : Command → Fate)
    (k : KeyStore) : (send fate c k).1.texts = k.texts := by
  rw [send]
  dsimp only
  split
  · exact texts_carryOut h _
  · rfl
  · exact texts_carryOut h _

/-- So it does if it hangs on the value of a key. -/
theorem texts_ifHolds {a : Command} (h : a.sparesTexts = true) (fate : Command → Fate)
    (key expected : String) (k : KeyStore) :
    (ifHolds fate key expected a k).1.texts = k.texts := by
  have hget := texts_send (c := .get key) rfl fate k
  rw [ifHolds]
  cases hg : send fate (.get key) k with
  | mk k' asked =>
    rw [hg] at hget
    have hact := texts_send h fate k'
    cases asked with
    | error reason => exact hget
    | ok reply =>
      dsimp only
      split
      · cases ha : send fate a k' with
        | mk k'' done =>
          rw [ha] at hact
          cases done with
          | error reason => exact hact.trans hget
          | ok reply => cases reply <;> exact hact.trans hget
      · exact hget

/-- Whatever becomes of setting a key that may be there, the texts that are there
    stay, and the key was free if the answer says that it was set. -/
theorem send_setAbsent (fate : Command → Fate) (key value : String) (k : KeyStore) :
    (∀ other t, k.get? other = some t →
      (send fate (.setAbsent key value) k).1.get? other = some t) ∧
      ((send fate (.setAbsent key value) k).2 = .ok (.number 1) →
        k.get? key = none ∧ (send fate (.setAbsent key value) k).1.get? key = some value) := by
  let c : Command := .setAbsent key value
  let k' : KeyStore := { k with sent := k.sent ++ [c] }
  have hkept (other t : String) (h : k.get? other = some t) :
      (k'.carryOut c).1.get? other = some t := by
    rw [getElem?_setAbsent, if_neg]
    · exact h
    · rintro ⟨rfl, hnone⟩
      rw [show k'.get? key = k.get? key from rfl, h] at hnone
      cases hnone
  have hset (h : (k'.carryOut c).2 = .number 1) :
      k.get? key = none ∧ (k'.carryOut c).1.get? key = some value := by
    have hfree : k.get? key = none := by
      cases hk : k.get? key with
      | none => rfl
      | some t =>
        have hc : k'.texts.contains key = true :=
          (contains_texts k' key).trans (congrArg Option.isSome hk)
        simp [c, carryOut, hc] at h
    refine ⟨hfree, ?_⟩
    rw [getElem?_setAbsent, if_pos ⟨rfl, hfree⟩]
  rw [send]
  dsimp only
  split
  · exact ⟨hkept, fun h => hset (Except.ok.inj h)⟩
  · exact ⟨fun _ _ h => h, nofun⟩
  · exact ⟨hkept, nofun⟩

/-! ### Texts and the life they have left -/

/-- The text under a key, and the seconds that it has left to live if they are limited. -/
def entry (k : KeyStore) (key : String) : Option String × Option Nat := (k.get? key, k.lives[key]?)

/-- Whether a command is carried out, be it answered or not. -/
def Fate.carries : Fate → Bool
  | .answered | .unanswered _ => true
  | .refused _ => false

/-- A key that is erased has neither a value nor a time to live. -/
theorem entry_erase (k : KeyStore) (key other : String) :
    (k.erase key).entry other = if key = other then (none, none) else k.entry other := by
  by_cases h : key = other
  · simp [entry, erase, get?, h]
  · simp [entry, erase, get?, Std.ExtTreeMap.getElem?_erase, h]

/-- What was sent before does not matter to a command. -/
theorem entry_carryOut_sent (k : KeyStore) (sent : List Command) (c : Command) (key : String) :
    (carryOut { k with sent } c).1.entry key = (k.carryOut c).1.entry key := by
  cases c with
  | setAbsent a value | expire a seconds =>
    simp only [carryOut]
    split <;> rfl
  | get a | delete a | push a value | pop a count => rfl

/-- To be carried out a command must not be refused; what was sent before does not matter. -/
theorem entry_send (fate : Command → Fate) (c : Command) (k : KeyStore) (key : String) :
    (send fate c k).1.entry key =
      if (fate c).carries = true then (k.carryOut c).1.entry key else k.entry key := by
  rw [send]
  dsimp only
  cases fate c with
  | answered | unanswered reason => simp [Fate.carries, entry_carryOut_sent]
  | refused reason => simp [Fate.carries, entry, get?]

/-- A key that is free is set, and then its life is what it was. -/
theorem entry_setAbsent (fate : Command → Fate) (key value other : String) (k : KeyStore) :
    (send fate (.setAbsent key value) k).1.entry other =
      if (fate (.setAbsent key value)).carries = true ∧ k.get? key = none ∧ key = other
      then (some value, k.lives[other]?) else k.entry other := by
  have hlives : (k.carryOut (.setAbsent key value)).1.lives = k.lives := by
    rw [carryOut]
    split <;> rfl
  rw [entry_send, entry, hlives, getElem?_setAbsent]
  by_cases hc : (fate (.setAbsent key value)).carries = true
  · by_cases hfree : k.get? key = none
    · by_cases hkey : key = other
      · subst hkey
        simp [hc, hfree]
      · simp [hc, hkey, entry]
    · simp [hc, hfree, entry]
  · simp [hc]

/-- A key that is there has its life limited. -/
theorem entry_expire (fate : Command → Fate) (key : String) (seconds : Nat) (other : String)
    (k : KeyStore) :
    (send fate (.expire key seconds) k).1.entry other =
      if (fate (.expire key seconds)).carries = true ∧ k.get? key ≠ none ∧ key = other
      then (k.get? other, some seconds) else k.entry other := by
  have htexts : (k.carryOut (.expire key seconds)).1.get? other = k.get? other :=
    congrArg (·[other]?) (texts_carryOut (c := .expire key seconds) rfl k)
  rw [entry_send, entry, htexts]
  by_cases hc : (fate (.expire key seconds)).carries = true
  · cases hkey : k.get? key with
    | none => simp [hc, carryOut, contains_texts, hkey, entry]
    | some t =>
      by_cases hother : key = other
      · subst hother
        simp [hc, carryOut, contains_texts, hkey]
      · simp [hc, carryOut, contains_texts, hkey, hother, entry, Std.ExtTreeMap.getElem?_insert]
  · simp [hc]

/-- A key that is deleted has neither text nor life. -/
theorem entry_delete (fate : Command → Fate) (key other : String) (k : KeyStore) :
    (send fate (.delete key) k).1.entry other =
      if (fate (.delete key)).carries = true ∧ key = other then (none, none)
      else k.entry other := by
  rw [entry_send, carryOut, entry_erase]
  by_cases hcarried : (fate (.delete key)).carries = true <;> simp [hcarried]

/-- Behind a condition that does not hold, no command is carried out. -/
theorem entry_ifHolds (fate : Command → Fate) (key expected : String) (act : Command)
    (k : KeyStore) (other : String) :
    (ifHolds fate key expected act k).1.entry other =
      if fate (.get key) = .answered ∧ k.get? key = some expected
      then (send fate act k).1.entry other else k.entry other := by
  rw [ifHolds]
  cases hfate : fate (.get key) with
  | refused reason | unanswered reason =>
    simp only [send, hfate, carryOut]
    rfl
  | answered =>
    have hasked : send fate (.get key) k =
        ({ k with sent := k.sent ++ [.get key] }, .ok (.text (k.get? key))) := by
      rw [send, hfate]
      rfl
    have hact : (send fate act { k with sent := k.sent ++ [.get key] }).1.entry other =
        (send fate act k).1.entry other := by
      rw [entry_send, entry_send, entry_carryOut_sent]
      rfl
    rw [hasked]
    dsimp only
    by_cases hheld : k.get? key = some expected
    · rw [if_pos (congrArg Reply.text hheld), if_pos ⟨rfl, hheld⟩, ← hact]
      cases send fate act { k with sent := k.sent ++ [.get key] } with
      | mk k' answer =>
        match answer with
        | .error _ | .ok (.number _) | .ok (.text _) | .ok (.entries _) => rfl
    · rw [if_neg fun h => hheld (Reply.text.inj h), if_neg fun h => hheld h.2]
      rfl

/-! ### Lists -/

/-- A list that is set is found under its key. -/
theorem list_setList (k : KeyStore) (key other : String) (es : List Entry) :
    (k.setList key es).list other = if key = other then es else k.list other := by
  by_cases hkey : key = other
  · subst hkey
    cases es <;> simp [list, setList]
  · cases es <;>
      simp [list, setList, hkey, Std.ExtTreeMap.getElem?_erase, Std.ExtTreeMap.getElem?_insert]

/-- A list grows by an entry at its far end. -/
theorem list_append (k : KeyStore) (key : String) (entry : Entry) :
    (k.append key entry).list key = k.list key ++ [entry] :=
  (list_setList k key key _).trans (if_pos rfl)

/-- A list grows at its far end by what is pushed, unless the command is refused. -/
theorem list_push (fate : Command → Fate) (key value : String) (k : KeyStore) :
    (send fate (.push key value) k).1.list key =
      k.list key ++
        if (fate (.push key value)).carries = true then [Entry.ofText value] else [] := by
  have hsent : list { k with sent := k.sent ++ [.push key value] } key = k.list key := rfl
  rw [send]
  cases fate (.push key value) with
  | answered | unanswered reason => simp [carryOut, list_append, Fate.carries, hsent]
  | refused reason => simp [Fate.carries, hsent]

/-- A list that was popped from has lost entries at its near end, unless the command was
    refused. -/
theorem list_pop (fate : Command → Fate) (key : String) (count : Nat) (k : KeyStore) :
    (send fate (.pop key count) k).1.list key =
      (k.list key).drop (if (fate (.pop key count)).carries = true then count else 0) := by
  have hsent : list { k with sent := k.sent ++ [.pop key count] } key = k.list key := rfl
  rw [send]
  cases fate (.pop key count) with
  | answered | unanswered reason => simp [carryOut, list_setList, Fate.carries, hsent]
  | refused reason => simp [Fate.carries, hsent]

/-- The entries that a list has lost are the answer, if there is one. -/
theorem answer_pop (fate : Command → Fate) (key : String) (count : Nat) (k : KeyStore) :
    (send fate (.pop key count) k).2 =
      match fate (.pop key count) with
      | .answered => .ok (.entries ((k.list key).take count))
      | .refused reason | .unanswered reason => .error reason := by
  rw [send]
  cases fate (.pop key count) <;> rfl

end KeyStore

end FlowCadence
