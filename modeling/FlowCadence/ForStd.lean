/-!
# Lemmas about standard types

Facts about results that may be refused, options, lists, digits and characters that mention
nothing of this library.  They are stated in the words of the standard library, and most of them
could stand there.
-/

namespace FlowCadence

/-! ## Results that may be refused

A computation ends with a result exactly when each of its steps does. -/

section Except

variable {ε α β : Type} {x : Except ε α} {a : α} {b : β}

theorem ok_bind (a : α) (f : α → Except ε β) : (Except.ok a >>= f) = f a := rfl

/-- What comes last is reached over what comes first. -/
theorem bind_eq_ok {f : α → Except ε β} : x >>= f = .ok b ↔ ∃ a, x = .ok a ∧ f a = .ok b := by
  cases x with
  | error e => exact ⟨nofun, nofun⟩
  | ok a => exact ⟨fun h => ⟨a, rfl, h⟩, fun ⟨_, h, hf⟩ => Except.ok.inj h ▸ hf⟩

/-- A result is mapped only if there is one. -/
theorem map_eq_ok {f : α → β} : f <$> x = .ok b ↔ ∃ a, x = .ok a ∧ f a = b := by
  cases x with
  | error e => exact ⟨nofun, nofun⟩
  | ok a => exact ⟨fun h => ⟨a, rfl, Except.ok.inj h⟩, fun ⟨_, h, hf⟩ => Except.ok.inj h ▸ hf ▸ rfl⟩

/-- The option keeps just the result. -/
theorem toOption_eq_some : x.toOption = some a ↔ x = .ok a := by
  cases x <;> simp [Except.toOption]

/-- Elements none of which is refused are not refused together. -/
theorem exists_mapM_ok {f : α → Except ε β} {xs : List α} (h : ∀ x ∈ xs, ∃ y, f x = .ok y) :
    ∃ ys, xs.mapM f = .ok ys := by
  induction xs with
  | nil => exact ⟨[], rfl⟩
  | cons x xs ih =>
    obtain ⟨y, hy⟩ := h x List.mem_cons_self
    obtain ⟨ys, hys⟩ := ih fun x hx => h x (List.mem_cons_of_mem _ hx)
    exact ⟨y :: ys, by rw [List.mapM_cons, hy, hys]; rfl⟩

end Except

/-! ## Options -/

section Option

variable {α β : Type}

/-- One of two answers is the first one or the second one. -/
theorem orElse_eq_some {x y : Option α} {a : α} (h : (x <|> y) = some a) :
    x = some a ∨ y = some a := by
  cases x with
  | none => exact .inr h
  | some x => exact .inl h

/-- All elements of a list have an image exactly when the list has. -/
theorem mapM_eq_some_iff {f : α → Option β} {xs : List α} {ys : List β} :
    xs.mapM f = some ys ↔ xs.map f = ys.map some := by
  induction xs generalizing ys with
  | nil => cases ys <;> simp
  | cons x xs ih =>
    rw [List.mapM_cons, List.map_cons]
    cases f x with
    | none => cases ys <;> simp
    | some y =>
      cases ys with
      | nil => cases xs.mapM f <;> simp
      | cons z ys =>
        rw [List.map_cons, List.cons.injEq, Option.some.injEq, ← ih]
        cases xs.mapM f <;> simp

/-- A list has no image exactly when one of its elements has none. -/
theorem mapM_eq_none_iff {f : α → Option β} {xs : List α} :
    xs.mapM f = none ↔ ∃ x ∈ xs, f x = none := by
  induction xs with
  | nil => simp
  | cons x xs ih =>
    simp only [List.mem_cons, exists_eq_or_imp, ← ih]
    cases hx : f x <;> cases hxs : xs.mapM f <;> simp [hx, hxs]

end Option

/-! ## Lists -/

section List

variable {α β : Type} {p : α → Bool}

/-- What no element loses when some of them change, the list does not lose either. -/
theorem map_map_ite {p : α → Prop} [DecidablePred p] {g : α → α} {f : α → β}
    (h : ∀ a, f (g a) = f a) (l : List α) :
    (l.map fun a => if p a then g a else a).map f = l.map f := by
  rw [List.map_map]
  refine List.map_congr_left fun a _ => ?_
  show f (if p a then g a else a) = f a
  split
  · exact h a
  · rfl

/-- Only a list of elements that are dropped is dropped whole. -/
theorem dropWhile_eq_nil {l : List α} : l.dropWhile p = [] ↔ l.all p = true := by
  induction l with
  | nil => simp
  | cons a l ih => cases ha : p a <;> simp [ha, ih]

/-- Dropping comes to an end at an element that is kept. -/
theorem dropWhile_append_cons {a : α} (ha : p a = false) (as bs : List α) :
    (as ++ a :: bs).dropWhile p = as.dropWhile p ++ a :: bs := by
  rw [List.dropWhile_append]
  split
  · next hempty =>
    rw [List.isEmpty_iff.1 hempty, List.dropWhile_cons_of_neg (by simp [ha])]
    rfl
  · rfl

/-- Two pieces or more are put together with the separator behind the first. -/
theorem intercalate_cons_cons (sep : α) (w v : List α) (ws : List (List α)) :
    [sep].intercalate (w :: v :: ws) = w ++ sep :: [sep].intercalate (v :: ws) := by
  rw [List.intercalate_cons_cons, List.append_assoc, List.singleton_append]

end List

/-! ## Numbers and their digits -/

section Nat

/-- The digits in base ten are decimal digits. -/
theorem isDigit_of_mem_toDigits {n : Nat} {c : Char} (h : c ∈ Nat.toDigits 10 n) :
    c.isDigit = true :=
  Nat.isDigit_of_mem_toDigits (by decide) (by decide) h

/-- The digits of a number in base ten write that number. -/
theorem ofDigitChars_toDigits (n : Nat) : Nat.ofDigitChars 10 (Nat.toDigits 10 n) 0 = n :=
  Nat.ofDigitChars_toDigits (by decide) (by decide)

/-- Only zero is written with a zero in front. -/
theorem toDigits_eq_zero_cons {n : Nat} {ds : List Char} (h : Nat.toDigits 10 n = '0' :: ds) :
    ds = [] := by
  induction n using Nat.strongRecOn generalizing ds with
  | ind n ih =>
    rw [Nat.toDigits_eq_if (by decide)] at h
    split at h
    · exact (List.cons.inj h).2.symm
    · -- Otherwise the digits of `n / 10` start with the zero, though `n / 10` is not zero.
      next hlarge =>
      obtain ⟨d, ds', hds⟩ := List.exists_cons_of_ne_nil
        (Nat.toDigits_ne_nil (n := n / 10) (b := 10))
      rw [hds, List.cons_append, List.cons.injEq] at h
      obtain ⟨rfl, -⟩ := h
      have hnil := ih (n / 10) (by omega) hds
      rw [hnil] at hds
      have hvalue := ofDigitChars_toDigits (n / 10)
      rw [hds] at hvalue
      have hzero : Nat.ofDigitChars 10 ['0'] 0 = 0 := rfl
      omega

/-- More digits never make a number smaller. -/
theorem le_ofDigitChars (n : Nat) (cs : List Char) : n ≤ Nat.ofDigitChars 10 cs n := by
  induction cs generalizing n with
  | nil => exact Nat.le_refl n
  | cons c cs ih =>
    rw [Nat.ofDigitChars_cons]
    have := ih (10 * n + (c.toNat - '0'.toNat))
    omega

end Nat

/-! ## Characters -/

section Char

variable {c : Char}

/-- Digits are alphanumeric. -/
theorem isAlphanum_of_isDigit (h : c.isDigit = true) : c.isAlphanum = true := by
  simp [Char.isAlphanum, h]

/-- Letters are alphanumeric. -/
theorem isAlphanum_of_isAlpha (h : c.isAlpha = true) : c.isAlphanum = true := by
  simp [Char.isAlphanum, h]

/-- The digits stand in front of all letters. -/
theorem isDigit_eq_false (h : c.isAlpha = true) : c.isDigit = false := by
  have hupper (h : c.isUpper = true) : 65 ≤ c.val.toNat :=
    UInt32.le_iff_toNat_le.1 (of_decide_eq_true h).1
  have hlower (h : c.isLower = true) : 97 ≤ c.val.toNat :=
    UInt32.le_iff_toNat_le.1 (of_decide_eq_true (Bool.and_eq_true_iff.1 h).1)
  refine Bool.eq_false_iff.2 fun hdigit => ?_
  have hle : c.val.toNat ≤ 57 :=
    UInt32.le_iff_toNat_le.1 (of_decide_eq_true (Bool.and_eq_true_iff.1 hdigit).2)
  rcases Bool.or_eq_true_iff.1 h with h | h
  · have := hupper h
    omega
  · have := hlower h
    omega

/-- A character whose lower case is a letter is one. -/
theorem isAlpha_of_toLower (h : c.toLower.isAlpha = true) : c.isAlpha = true := by
  -- An upper-case letter is a letter, and any other character is its own lower case.
  cases hupper : c.isUpper with
  | true => exact Bool.or_eq_true_iff.2 (.inl hupper)
  | false =>
    have hsame : c.toLower = c := dif_neg (of_decide_eq_false hupper)
    rwa [hsame] at h

end Char

end FlowCadence
