import FlowCadence.Text.Basic
/-! # Cutting texts

A text is cut at every separator (`splitOn`), at the first one (`cut`), at the
last one (`cutLast`), or at runs of white space (`words`).

* `splitOn_intercalate`  cutting leads back to the pieces that were put together
* `words_trim`           white space at either end makes no difference to the words
* `cut_eq_some_iff`      the part before the first separator holds none
* `cutLast_eq_some_iff`  the part after the last separator holds none -/

namespace FlowCadence.Text

/-- The pieces between the characters that satisfy `p`: one piece more than
    there are such characters. -/
def splitOn (p : Char → Bool) : List Char → List (List Char)
  | [] => [[]]
  | c :: cs => if p c then [] :: splitOn p cs else (splitOn p cs).modifyHead (c :: ·)

/-- The two sides of the first `sep`. -/
def cut (sep : Char) : List Char → Option (List Char × List Char)
  | [] => none
  | c :: cs =>
    if c = sep then some ([], cs) else (cut sep cs).map fun r => (c :: r.1, r.2)

/-- The two sides of the last `sep`. -/
def cutLast (sep : Char) : List Char → Option (List Char × List Char)
  | [] => none
  | c :: cs =>
    match cutLast sep cs with
    | some r => some (c :: r.1, r.2)
    | none => if c = sep then some ([], cs) else none

/-- The pieces of a text that are separated by white space, none of them empty. -/
def words (s : String) : List String :=
  ((splitOn isSpace s.toList).filter fun w => !w.isEmpty).map String.ofList

/-! ### Pieces -/

/-- Even of an empty text there is one piece. -/
theorem splitOn_ne_nil (p : Char → Bool) (cs : List Char) : splitOn p cs ≠ [] := by
  induction cs with
  | nil => simp [splitOn]
  | cons c cs ih =>
    rw [splitOn]
    split
    · simp
    · simpa using ih

/-- A text without separators is one piece. -/
theorem splitOn_eq_singleton {p : Char → Bool} {cs : List Char} (h : ∀ c ∈ cs, p c = false) :
    splitOn p cs = [cs] := by
  induction cs with
  | nil => rfl
  | cons c cs ih =>
    rw [splitOn, h c List.mem_cons_self, ih fun d hd => h d (List.mem_cons_of_mem _ hd)]
    rfl

/-- The pieces on the two sides of a separator are those of the one side and of the other. -/
theorem splitOn_append_cons {p : Char → Bool} {c : Char} (hc : p c = true) (as bs : List Char) :
    splitOn p (as ++ c :: bs) = splitOn p as ++ splitOn p bs := by
  induction as with
  | nil => simp [splitOn, hc]
  | cons a as ih =>
    rw [List.cons_append, splitOn, splitOn, ih]
    split
    · rfl
    · obtain ⟨w, ws, hws⟩ := List.exists_cons_of_ne_nil (splitOn_ne_nil p as)
      rw [hws]
      rfl

/-- No piece holds what it was split at. -/
theorem mem_of_mem_splitOn {p : Char → Bool} {cs w : List Char} (h : w ∈ splitOn p cs) :
    ∀ c ∈ w, p c = false := by
  induction cs generalizing w with
  | nil => simp_all [splitOn]
  | cons c cs ih =>
    rw [splitOn] at h
    split at h
    · rcases List.mem_cons.1 h with rfl | h
      · nofun
      · exact ih h
    · next hc =>
      obtain ⟨v, vs, hvs⟩ := List.exists_cons_of_ne_nil (splitOn_ne_nil p cs)
      rw [hvs] at h ih
      rcases List.mem_cons.1 h with rfl | h
      · intro d hd
        rcases List.mem_cons.1 hd with rfl | hd
        · exact Bool.eq_false_iff.2 hc
        · exact ih List.mem_cons_self d hd
      · exact ih (List.mem_cons_of_mem _ h)

/-- Pieces that hold no separator are what their text is cut into again. -/
theorem splitOn_intercalate {sep : Char} {ws : List (List Char)} (hne : ws ≠ [])
    (h : ∀ w ∈ ws, sep ∉ w) : splitOn (· = sep) ([sep].intercalate ws) = ws := by
  induction ws with
  | nil => exact absurd rfl hne
  | cons w ws ih =>
    have hw : splitOn (· = sep) w = [w] :=
      splitOn_eq_singleton fun c hc => by
        simpa using fun hsep : c = sep => h w List.mem_cons_self (hsep ▸ hc)
    cases ws with
    | nil => simpa [List.intercalate] using hw
    | cons v ws =>
      rw [intercalate_cons_cons, splitOn_append_cons (by simp), hw,
        ih (by simp) fun u hu => h u (List.mem_cons_of_mem _ hu)]
      rfl

/-! ### Words -/

/-- The pieces of a text that are not empty. -/
private def wordChars (cs : List Char) : List (List Char) :=
  (splitOn isSpace cs).filter fun w => !w.isEmpty

/-- Blanks in front make no word. -/
private theorem wordChars_dropWhile (cs : List Char) :
    wordChars (cs.dropWhile isSpace) = wordChars cs := by
  induction cs with
  | nil => rfl
  | cons c cs ih =>
    cases hc : isSpace c with
    | false => rw [List.dropWhile_cons_of_neg (by simp [hc])]
    | true =>
      rw [List.dropWhile_cons_of_pos hc, ih, wordChars, wordChars, splitOn, if_pos hc,
        List.filter_cons_of_neg (by simp)]

/-- Blanks behind make none either. -/
private theorem wordChars_append {as bs : List Char} (h : ∀ c ∈ bs, isSpace c) :
    wordChars (as ++ bs) = wordChars as := by
  induction bs generalizing as with
  | nil => rw [List.append_nil]
  | cons b bs ih =>
    have hb : isSpace b = true := h b List.mem_cons_self
    have hempty : wordChars ([] ++ bs) = wordChars [] :=
      ih fun c hc => h c (List.mem_cons_of_mem _ hc)
    rw [wordChars, splitOn_append_cons hb, List.filter_append]
    change wordChars as ++ wordChars bs = _
    rw [← List.nil_append bs, hempty]
    simp [wordChars, splitOn]

/-- So it makes no difference to trim. -/
private theorem wordChars_trimChars (cs : List Char) : wordChars (trimChars cs) = wordChars cs := by
  let ds := cs.dropWhile isSpace
  have hsplit : ds = trimChars cs ++ (ds.reverse.takeWhile isSpace).reverse := by
    rw [trimChars, ← List.reverse_append, List.takeWhile_append_dropWhile, List.reverse_reverse]
  have hend : ∀ c ∈ (ds.reverse.takeWhile isSpace).reverse, isSpace c := fun c hc =>
    List.all_eq_true.1 List.all_takeWhile c (List.mem_reverse.1 hc)
  rw [← wordChars_append hend, ← hsplit, wordChars_dropWhile]

/-- A text has the same words without the blanks around it. -/
theorem words_trim (s : String) : words (trim s) = words s := by
  rw [words, words, toList_trim]
  exact congrArg _ (wordChars_trimChars s.toList)

/-- A word has a first character, and holds no white space. -/
theorem of_mem_words {s w : String} (h : w ∈ words s) :
    w.toList ≠ [] ∧ ∀ c ∈ w.toList, isSpace c = false := by
  rw [words] at h
  obtain ⟨cs, hcs, rfl⟩ := List.mem_map.1 h
  obtain ⟨hcs, hne⟩ := List.mem_filter.1 hcs
  rw [String.toList_ofList]
  exact ⟨by simpa using hne, mem_of_mem_splitOn hcs⟩

/-! ### Two sides -/

/-- A text is cut unless the separator is not in it. -/
theorem cut_eq_none_iff {sep : Char} {cs : List Char} : cut sep cs = none ↔ sep ∉ cs := by
  induction cs with
  | nil => simp [cut]
  | cons c cs ih =>
    by_cases h : c = sep
    · simp [cut, h]
    · simp [cut, h, ih, Ne.symm h]

/-- The first separator stands behind a part that holds none. -/
theorem cut_eq_some_iff {sep : Char} {cs a b : List Char} :
    cut sep cs = some (a, b) ↔ cs = a ++ sep :: b ∧ sep ∉ a := by
  induction cs generalizing a with
  | nil => simp [cut]
  | cons c cs ih =>
    by_cases h : c = sep
    · subst h
      cases a with
      | nil => simp [cut, eq_comm]
      | cons d a => simp only [cut]; grind
    · cases a with
      | nil => simp [cut, h]
      | cons d a =>
        simp only [cut, h, if_false, Option.map_eq_some_iff, Prod.mk.injEq, Prod.exists,
          List.cons.injEq]
        grind

/-- The same holds of the last separator. -/
theorem cutLast_eq_none_iff {sep : Char} {cs : List Char} :
    cutLast sep cs = none ↔ sep ∉ cs := by
  induction cs with
  | nil => simp [cutLast]
  | cons c cs ih =>
    simp only [cutLast]
    cases h : cutLast sep cs with
    | some r =>
      have : sep ∈ cs := by
        refine Decidable.byContradiction fun hn => ?_
        simp [ih.2 hn] at h
      simp [this]
    | none =>
      have : sep ∉ cs := ih.1 h
      by_cases hc : c = sep
      · simp [hc]
      · simp [hc, this, Ne.symm hc]

/-- The last separator stands in front of a part that holds none. -/
theorem cutLast_eq_some_iff {sep : Char} {cs a b : List Char} :
    cutLast sep cs = some (a, b) ↔ cs = a ++ sep :: b ∧ sep ∉ b := by
  induction cs generalizing a with
  | nil => simp [cutLast]
  | cons c cs ih =>
    simp only [cutLast]
    cases h : cutLast sep cs with
    | some r =>
      obtain ⟨a', b'⟩ := r
      have hr := (ih (a := a')).1
      cases a with
      | nil =>
        have : sep ∈ cs := by
          refine Decidable.byContradiction fun hn => ?_
          simp [cutLast_eq_none_iff.2 hn] at h
        simp only [Option.some.injEq, Prod.mk.injEq, reduceCtorEq, false_and, List.nil_append,
          List.cons.injEq, false_iff, not_and]
        rintro ⟨-, rfl⟩ hn
        exact hn this
      | cons d a =>
        have := ih (a := a)
        rw [h] at this
        simp only [Option.some.injEq, Prod.mk.injEq, List.cons.injEq, List.cons_append] at this ⊢
        grind
    | none =>
      have hn : sep ∉ cs := cutLast_eq_none_iff.1 h
      by_cases hc : c = sep
      · subst hc
        cases a with
        | nil => simp only [if_true]; grind
        | cons d a => simp only [if_true]; grind
      · cases a with
        | nil => simp [hc]
        | cons d a => simp only [hc, if_false]; grind

end FlowCadence.Text
