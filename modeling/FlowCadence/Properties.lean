import Std.Data.ExtTreeMap
/-! # Tables keyed by text

Tables whose keys are texts, in ascending order of their code points: the
properties of flows and jobs, and whatever a node keeps by uri or by name.  Two
tables that answer every look-up alike are equal
(`Std.ExtTreeMap.ext_getElem?`).

* `Table.lookUp_insert`   an inserted value is found under its key, and nothing else changes
* `Table.lookUp_erase`    an erased key is gone, and nothing else changes
* `Table.nodup_keys`      no key is listed twice
* `Table.ascending_toList`  entries are listed in ascending order of their keys -/

namespace FlowCadence

/-- A table keyed by text, listed in ascending order of its keys. -/
abbrev Table (α : Type) := Std.ExtTreeMap String α

namespace Table

variable {α : Type}

/-- A value that is inserted is found under its key, and nothing else changes. -/
theorem lookUp_insert (t : Table α) (k a : String) (v : α) :
    (t.insert k v)[a]? = if k = a then some v else t[a]? := by
  simp [Std.ExtTreeMap.getElem?_insert]

/-- Nothing is found under a key that is erased, and nothing else changes. -/
theorem lookUp_erase (t : Table α) (k a : String) :
    (t.erase k)[a]? = if k = a then none else t[a]? := by
  simp [Std.ExtTreeMap.getElem?_erase]

/-- Erasing a key undoes an insertion under it. -/
theorem erase_insert (t : Table α) (k : String) (v : α) : (t.insert k v).erase k = t.erase k := by
  apply Std.ExtTreeMap.ext_getElem?
  intro a
  rw [lookUp_erase, lookUp_erase, lookUp_insert]
  split <;> rfl

/-- Erasing a key that is not there changes nothing. -/
theorem erase_of_contains_eq_false (t : Table α) (k : String) (h : t.contains k = false) :
    t.erase k = t := by
  have hk : t[k]? = none := by
    rw [Std.ExtTreeMap.contains_eq_isSome_getElem?] at h
    exact Option.not_isSome_iff_eq_none.1 (by simp [h])
  apply Std.ExtTreeMap.ext_getElem?
  intro a
  rw [lookUp_erase]
  split
  · next heq => rw [← heq, hk]
  · rfl

/-- No key is listed twice. -/
theorem nodup_keys (t : Table α) : t.keys.Nodup :=
  t.ordered_keys.imp fun {a b} hless heq => by
    subst heq
    exact Std.OrientedCmp.not_lt_of_lt hless hless

/-- Entries are listed in the order of their keys. -/
theorem ascending_toList (t : Table α) : t.toList.Pairwise fun a b => a.1 < b.1 :=
  t.ordered_keys_toList.imp fun h => compareOfLessAndEq_eq_lt.1 h

end Table

/-- Configuration as named values. -/
abbrev Properties := Table String

/-- The properties of `top` over those of `base`. -/
def Properties.overlay (base top : Properties) : Properties := base ∪ top

/-- A property of the upper table counts before one of the lower. -/
theorem Properties.getElem?_overlay (base top : Properties) (k : String) :
    (base.overlay top)[k]? = top[k]?.or base[k]? :=
  Std.ExtTreeMap.getElem?_union

end FlowCadence
