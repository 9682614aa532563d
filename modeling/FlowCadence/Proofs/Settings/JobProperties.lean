import FlowCadence.ForStd
import FlowCadence.Settings.Basic
import Mathlib.Data.List.DropRight
/-! # Reading job properties

The text of the job properties is refused when one of its segments gives no value to a key,
and otherwise every key has the value that the last segment with that key gives it.  Whatever
can be read so can be written: its pairs, in any order, lead back to the same properties.

## Key results

* `Text.cut_trimChars`: a text may be trimmed before it is cut or after
* `gather_concat_of_blank`, `gather_concat`: what one segment more does
* `gather_cases`: what segments come to, and when they are refused
* `segments_render`: what is written is cut into the pairs again
* `parsed_iff_assigned`: which texts are refused, what the others give, and the way back -/

namespace FlowCadence

/-! ### Trimming around a separator -/

namespace Text

variable {sep : Char}

/-- Trimming on the right stops at a separator. -/
theorem rdropWhile_append_cons {p : Char → Bool} (hsep : p sep = false) (as bs : List Char) :
    (as ++ sep :: bs).rdropWhile p = as ++ sep :: bs.rdropWhile p := by
  rw [List.rdropWhile, List.reverse_append, List.reverse_cons, List.append_assoc,
    List.singleton_append, dropWhile_append_cons hsep]
  simp [List.rdropWhile]

/-- White space goes from the left first and then from the right. -/
theorem trimChars_eq (cs : List Char) :
    trimChars cs = (cs.dropWhile isSpace).rdropWhile isSpace :=
  rfl

/-- Around a separator each side is trimmed on its outer end. -/
theorem trimChars_append_cons (hsep : isSpace sep = false) (as bs : List Char) :
    trimChars (as ++ sep :: bs) = as.dropWhile isSpace ++ sep :: bs.rdropWhile isSpace := by
  rw [trimChars_eq, dropWhile_append_cons hsep, rdropWhile_append_cons hsep]

/-- White space on the left is trimmed anyway. -/
theorem trimChars_dropWhile (cs : List Char) :
    trimChars (cs.dropWhile isSpace) = trimChars cs := by
  rw [trimChars_eq, List.dropWhile_idempotent, ← trimChars_eq]

/-- So is white space on the right. -/
theorem trimChars_rdropWhile (cs : List Char) :
    trimChars (cs.rdropWhile isSpace) = trimChars cs := by
  -- Where nothing but white space stands, nothing is left either way.
  by_cases hblank : cs.all isSpace = true
  · rw [List.rdropWhile_eq_nil_iff.2 (List.all_eq_true.1 hblank), trimChars_eq_nil_iff.2 hblank]
    rfl
  · -- The text goes around a character that is no white space.
    obtain ⟨c, hc, hspace⟩ : ∃ c ∈ cs, isSpace c = false := by simpa using hblank
    obtain ⟨as, bs, rfl⟩ := List.append_of_mem hc
    rw [rdropWhile_append_cons hspace, trimChars_append_cons hspace, trimChars_append_cons hspace,
      List.rdropWhile_idempotent]

/-- To trim twice is to trim once. -/
theorem trimChars_trimChars (cs : List Char) : trimChars (trimChars cs) = trimChars cs := by
  rw [trimChars_eq cs, trimChars_rdropWhile, trimChars_dropWhile, trimChars_eq]

/-- What is left by trimming was there before. -/
theorem mem_of_mem_trimChars {c : Char} {cs : List Char} (h : c ∈ trimChars cs) : c ∈ cs :=
  (List.dropWhile_sublist _).subset ((List.rdropWhile_prefix _ _).subset h)

/-- A text may be trimmed before it is cut or after. -/
theorem cut_trimChars (hsep : isSpace sep = false) (cs : List Char) :
    cut sep (trimChars cs) =
      (cut sep cs).map fun r => (r.1.dropWhile isSpace, r.2.rdropWhile isSpace) := by
  cases hcut : cut sep cs with
  -- A separator that is left would have been there before.
  | none =>
    refine cut_eq_none_iff.2 fun hmem => ?_
    exact cut_eq_none_iff.1 hcut (mem_of_mem_trimChars hmem)
  -- The first separator stays the first one.
  | some r =>
    obtain ⟨as, bs⟩ := r
    obtain ⟨rfl, hnone⟩ := cut_eq_some_iff.1 hcut
    refine cut_eq_some_iff.2 ⟨trimChars_append_cons hsep as bs, fun hmem => hnone ?_⟩
    exact (List.dropWhile_sublist _).subset hmem

end Text

namespace Settings.JobProperties

variable {segment : List Char} {segments : List (List Char)} {key value : String}

/-! ### Segments -/

/-- What stands between two semicolons, or between one and an end of the text. -/
def segmentsOf (raw : String) : List (List Char) := Text.splitOn (· = ';') raw.toList

/-- The segment gives a value to a key, which stands before the first equals sign. -/
def Assigns (segment : List Char) (key value : String) : Prop :=
  ∃ before after, segment = before ++ '=' :: after ∧ '=' ∉ before ∧
    Text.trim (String.ofList before) = key ∧ Text.trim (String.ofList after) = value

/-- The segment is not blank and has no equals sign, or nothing but white space before the
    first one. -/
def Malformed (segment : List Char) : Prop :=
  Text.isBlank (String.ofList segment) = false ∧
    ('=' ∉ segment ∨ ∃ before after, segment = before ++ '=' :: after ∧ '=' ∉ before ∧
      Text.isBlank (String.ofList before) = true)

/-- The last segment with a key gives it a value. -/
def LastAssigns (segments : List (List Char)) (key value : String) : Prop :=
  ∃ before segment after, segments = before ++ segment :: after ∧ Assigns segment key value ∧
    ∀ later ∈ after, ∀ other, ¬ Assigns later key other

/-- A segment gives one value to one key. -/
theorem Assigns.unique {key' value' : String} (h : Assigns segment key value)
    (h' : Assigns segment key' value') : key = key' ∧ value = value' := by
  obtain ⟨before, after, heq, hnone, rfl, rfl⟩ := h
  obtain ⟨before', after', heq', hnone', rfl, rfl⟩ := h'
  -- The first equals sign is in one place.
  have hcut : some (before, after) = some (before', after') :=
    (Text.cut_eq_some_iff.2 ⟨heq, hnone⟩).symm.trans (Text.cut_eq_some_iff.2 ⟨heq', hnone'⟩)
  cases hcut
  exact ⟨rfl, rfl⟩

/-- A blank segment gives no value to any key. -/
theorem not_assigns_of_blank (hblank : Text.isBlank (String.ofList segment) = true)
    (key value : String) : ¬ Assigns segment key value := by
  rintro ⟨before, after, rfl, -⟩
  have hspace := Text.isBlank_eq_true_iff.1 hblank '=' (by simp)
  exact absurd hspace (by decide)

/-- A segment is blank, it gives a value to a key, or it is malformed. -/
theorem segment_cases (segment : List Char) :
    Text.isBlank (String.ofList segment) = true ∨
      (∃ key value, key ≠ "" ∧ Assigns segment key value) ∨ Malformed segment := by
  -- It is cut at its first equals sign, if it has one.
  cases hblank : Text.isBlank (String.ofList segment) with
  | true => exact .inl rfl
  | false =>
    refine .inr ?_
    cases hcut : Text.cut '=' segment with
    | none => exact .inr ⟨hblank, .inl (Text.cut_eq_none_iff.1 hcut)⟩
    | some r =>
      obtain ⟨heq, hnone⟩ := Text.cut_eq_some_iff.1 hcut
      by_cases hkey : Text.isBlank (String.ofList r.1) = true
      · exact .inr ⟨hblank, .inr ⟨_, _, heq, hnone, hkey⟩⟩
      · exact .inl ⟨_, _, fun h => hkey (Text.trim_eq_empty_iff.1 h), _, _, heq, hnone, rfl, rfl⟩

/-- What gives a value to a key is not blank. -/
theorem Assigns.isBlank_eq_false (h : Assigns segment key value) :
    Text.isBlank (String.ofList segment) = false :=
  Bool.eq_false_iff.2 fun hblank => not_assigns_of_blank hblank key value h

/-- A segment with a value is malformed when its key is empty. -/
theorem Assigns.malformed_iff (h : Assigns segment key value) : Malformed segment ↔ key = "" := by
  constructor
  -- It has an equals sign, so what is wrong is its key.
  · rintro ⟨-, hnone | ⟨before, after, heq, hnone, hblank⟩⟩
    · obtain ⟨before, after, rfl, -⟩ := h
      exact absurd (by simp) hnone
    · exact (h.unique ⟨before, after, heq, hnone, Text.trim_eq_empty_iff.2 hblank, rfl⟩).1
  · rintro rfl
    have hblank := h.isBlank_eq_false
    obtain ⟨before, after, heq, hnone, hkey, -⟩ := h
    exact ⟨hblank, .inr ⟨before, after, heq, hnone, Text.trim_eq_empty_iff.1 hkey⟩⟩

/-- A pair is read off the segment, whether it was trimmed before or not. -/
theorem pair_trimChars (segment : List Char) : pair (Text.trimChars segment) =
    match Text.cut '=' segment with
    | none => .error (.noValue (String.ofList (Text.trimChars segment)))
    | some (before, after) =>
      if (Text.trimChars before).isEmpty
      then .error (.noKey (String.ofList (Text.trimChars segment)))
      else .ok (Text.trim (String.ofList before), Text.trim (String.ofList after)) := by
  rw [pair, Text.cut_trimChars (by decide)]
  cases Text.cut '=' segment with
  | none => rfl
  | some r =>
    simp only [Option.map_some, Text.trimChars_dropWhile, Text.trimChars_rdropWhile, Text.trim,
      String.toList_ofList]

/-- The pair of a segment is its key and its value. -/
theorem pair_of_assigns (h : Assigns segment key value) (hkey : key ≠ "") :
    pair (Text.trimChars segment) = .ok (key, value) := by
  obtain ⟨before, after, heq, hnone, rfl, rfl⟩ := h
  -- The key is not empty, so something is left of what stands before the sign.
  have hne : (Text.trimChars before).isEmpty = false := by
    rw [Bool.eq_false_iff, ne_eq, List.isEmpty_iff]
    rintro hempty
    exact hkey (by simp [Text.trim, hempty])
  rw [pair_trimChars, Text.cut_eq_some_iff.2 ⟨heq, hnone⟩]
  simp only [hne, Bool.false_eq_true, if_false]

/-- A malformed segment has no pair. -/
theorem pair_of_malformed (h : Malformed segment) :
    ∃ refusal, pair (Text.trimChars segment) = .error refusal := by
  rw [pair_trimChars]
  obtain ⟨-, hnone | ⟨before, after, heq, hnone, hblank⟩⟩ := h
  -- Either there is no equals sign, or nothing stands before it.
  · exact ⟨_, by rw [Text.cut_eq_none_iff.2 hnone]⟩
  · have hempty : Text.trimChars before = [] :=
      Text.trimChars_eq_nil_iff.2 (by simpa [Text.isBlank] using hblank)
    exact ⟨_, by rw [Text.cut_eq_some_iff.2 ⟨heq, hnone⟩]; simp [hempty]; rfl⟩

/-! ### Reading segment by segment -/

/-- The properties that segments give. -/
def gather (segments : List (List Char)) : Except Refusal Properties := do
  let pairs ← ((segments.map Text.trimChars).filter fun p => !p.isEmpty).mapM pair
  return pairs.foldl (fun ps (k, v) => ps.insert k v) ∅

/-- A text is read by its segments. -/
theorem parse_eq_gather (raw : String) : parse raw = gather (segmentsOf raw) := rfl

/-- A blank segment is skipped. -/
theorem gather_concat_of_blank (hblank : Text.isBlank (String.ofList segment) = true) :
    gather (segments ++ [segment]) = gather segments := by
  have hempty : Text.trimChars segment = [] :=
    Text.trimChars_eq_nil_iff.2 (by simpa [Text.isBlank] using hblank)
  simp [gather, hempty]

/-- Any other segment adds its pair to the properties before it. -/
theorem gather_concat (hblank : Text.isBlank (String.ofList segment) = false) :
    gather (segments ++ [segment]) =
      gather segments >>= fun ps => pair (Text.trimChars segment) >>= fun kv =>
        pure (ps.insert kv.1 kv.2) := by
  -- Something is left of the segment when it is trimmed.
  have hne : (!(Text.trimChars segment).isEmpty) = true := by
    rw [Bool.not_eq_true', Bool.eq_false_iff, ne_eq, List.isEmpty_iff, Text.trimChars_eq_nil_iff]
    simpa [Text.isBlank] using hblank
  have hpieces : ((segments ++ [segment]).map Text.trimChars).filter (fun p => !p.isEmpty) =
      ((segments.map Text.trimChars).filter fun p => !p.isEmpty) ++ [Text.trimChars segment] := by
    simp [hne]
  rw [gather, gather, hpieces, List.mapM_append]
  -- The segments before it may have been refused, or the segment itself.
  cases ((segments.map Text.trimChars).filter fun p => !p.isEmpty).mapM pair with
  | error refusal => rfl
  | ok pairs =>
    cases hpair : pair (Text.trimChars segment) with
    | error refusal => simp [hpair, bind, Except.bind, pure, Except.pure]
    | ok kv => simp [hpair, bind, Except.bind, pure, Except.pure]

/-- Where there are no segments no key has a value. -/
theorem not_lastAssigns_nil (key value : String) : ¬ LastAssigns [] key value := by
  rintro ⟨before, segment, after, heq, -⟩
  simp at heq

/-- The last segment counts for its own key, and the ones before it for all others. -/
theorem lastAssigns_concat_iff : LastAssigns (segments ++ [segment]) key value ↔
    Assigns segment key value ∨
      ((∀ other, ¬ Assigns segment key other) ∧ LastAssigns segments key value) := by
  constructor
  · rintro ⟨before, found, after, heq, hassigns, hlast⟩
    -- The one that counts is the last segment, or one before it.
    rcases List.eq_nil_or_concat after with rfl | ⟨init, final, rfl⟩
    · obtain ⟨-, hsame⟩ := List.append_inj' heq rfl
      cases hsame
      exact .inl hassigns
    · rw [List.concat_eq_append, ← List.cons_append, ← List.append_assoc] at heq
      obtain ⟨rfl, hsame⟩ := List.append_inj' heq rfl
      cases hsame
      refine .inr ⟨fun other => hlast segment (by simp) other, before, found, init, rfl, hassigns,
        fun later hlater => hlast later (by simp [hlater])⟩
  · rintro (hassigns | ⟨hnone, before, found, after, rfl, hassigns, hlast⟩)
    · exact ⟨segments, segment, [], rfl, hassigns, nofun⟩
    · refine ⟨before, found, after ++ [segment], by simp, hassigns, fun later hlater => ?_⟩
      rcases List.mem_append.1 hlater with hlater | hlater
      -- None behind it gives the key a value, neither of those before nor the last one.
      · exact hlast later hlater
      · rw [List.mem_singleton.1 hlater]
        exact hnone

/-- To look a key up among the properties is to look for the last segment with it, and so it
    stays when one segment more gives a value to a key. -/
theorem lookUp_insert_iff {ps : Properties}
    (hlast : ∀ key value, ps[key]? = some value ↔ LastAssigns segments key value)
    (hassigns : Assigns segment key value) (k v : String) :
    (ps.insert key value)[k]? = some v ↔ LastAssigns (segments ++ [segment]) k v := by
  rw [lastAssigns_concat_iff, Table.lookUp_insert, ← hlast]
  split
  -- The key of the segment has its value from it.
  · next heq =>
    subst heq
    constructor
    · intro h
      cases h
      exact .inl hassigns
    · rintro (h | ⟨hno, -⟩)
      · rw [(hassigns.unique h).2]
      · exact absurd hassigns (hno value)
  · next hne =>
    -- The segment has one key, and it is not the one in question.
    have hno (other : String) : ¬ Assigns segment k other := fun h => hne (hassigns.unique h).1
    exact ⟨fun h => .inr ⟨hno, h⟩, fun h => (h.resolve_left (hno v)).2⟩

/-- Segments are refused when one of them is malformed, and otherwise each key has the value
    that the last segment with it gives. -/
theorem gather_cases (segments : List (List Char)) :
    ((∃ segment ∈ segments, Malformed segment) ∧ ∃ refusal, gather segments = .error refusal) ∨
    ((∀ segment ∈ segments, ¬ Malformed segment) ∧ ∃ ps, gather segments = .ok ps ∧
      ∀ key value, ps[key]? = some value ↔ LastAssigns segments key value) := by
  -- The last segment decides, so segments come one more at the end.
  induction segments using List.reverseRecOn with
  | nil =>
    refine .inr ⟨nofun, ∅, rfl, fun key value => iff_of_false ?_ (not_lastAssigns_nil key value)⟩
    simp
  | append_singleton segments segment ih =>
    rcases ih with ⟨⟨bad, hmem, hbad⟩, refusal, herror⟩ | ⟨hgood, ps, hps, hlast⟩
    · -- What was refused before stays refused.
      refine .inl ⟨⟨bad, List.mem_append_left _ hmem, hbad⟩, refusal, ?_⟩
      cases hblank : Text.isBlank (String.ofList segment) with
      | true => rw [gather_concat_of_blank hblank, herror]
      | false =>
        rw [gather_concat hblank, herror]
        rfl
    -- Nothing was wrong so far, so what matters is the new segment.
    · have hgood' (h : ¬ Malformed segment) : ∀ s ∈ segments ++ [segment], ¬ Malformed s := by
        intro s hs
        rcases List.mem_append.1 hs with hs | hs
        · exact hgood s hs
        · rwa [List.mem_singleton.1 hs]
      rcases segment_cases segment with hblank | ⟨key, value, hkey, hassigns⟩ | hbad
      -- It is blank and changes nothing.
      · have hno := not_assigns_of_blank hblank
        refine .inr ⟨hgood' fun h => ne_true_of_eq_false h.1 hblank, ps, ?_, fun key value => ?_⟩
        · rw [gather_concat_of_blank hblank, hps]
        · rw [lastAssigns_concat_iff, hlast]
          exact ⟨fun h => .inr ⟨hno key, h⟩, fun h => (h.resolve_left (hno key value)).2⟩
      -- It gives a value to a key, which replaces the one before.
      · have hgood := hgood' fun hbad => hkey (hassigns.malformed_iff.1 hbad)
        refine .inr ⟨hgood, ps.insert key value, ?_, lookUp_insert_iff hlast hassigns⟩
        rw [gather_concat hassigns.isBlank_eq_false, hps, pair_of_assigns hassigns hkey]
        rfl
      -- It is malformed.
      · obtain ⟨refusal, hpair⟩ := pair_of_malformed hbad
        refine .inl ⟨⟨segment, by simp, hbad⟩, refusal, ?_⟩
        rw [gather_concat hbad.1, hps, hpair]
        rfl

/-! ### Writing -/

/-- A key and a value that can be written as a pair. -/
structure IsEntry (key value : String) : Prop where
  key_ne : key ≠ ""
  key_trimmed : Text.trim key = key
  key_plain : ';' ∉ key.toList ∧ '=' ∉ key.toList
  value_trimmed : Text.trim value = value
  value_plain : ';' ∉ value.toList

/-- Every pair of the properties can be written. -/
def Writable (ps : Properties) : Prop := ∀ key value, ps[key]? = some value → IsEntry key value

/-- What stands between two semicolons holds none, and a key holds no equals sign. -/
theorem Assigns.isEntry (h : Assigns segment key value) (hgood : ¬ Malformed segment)
    (hplain : ';' ∉ segment) : IsEntry key value := by
  have hkey := h.malformed_iff.not.1 hgood
  obtain ⟨before, after, rfl, hnone, rfl, rfl⟩ := h
  -- Key and value were trimmed when they were read.
  have htrim (cs : List Char) :
      Text.trim (Text.trim (String.ofList cs)) = Text.trim (String.ofList cs) := by
    simp [Text.trim, Text.trimChars_trimChars]
  have hmem {c : Char} {cs : List Char} (hc : c ∈ (Text.trim (String.ofList cs)).toList) :
      c ∈ cs := by
    rw [Text.toList_trim, String.toList_ofList] at hc
    exact Text.mem_of_mem_trimChars hc
  -- What the key and the value hold was in the segment.
  exact {
    key_ne := hkey
    key_trimmed := htrim before
    key_plain := ⟨fun hc => hplain (by simp [hmem hc]), fun hc => hnone (hmem hc)⟩
    value_trimmed := htrim after
    value_plain := fun hc => hplain (by simp [hmem hc]) }

/-- The segment that a pair is written as. -/
def segmentFor (kv : String × String) : List Char := kv.1.toList ++ '=' :: kv.2.toList

/-- A pair that can be written gives its key its value. -/
theorem IsEntry.assigns (h : IsEntry key value) : Assigns (segmentFor (key, value)) key value :=
  ⟨key.toList, value.toList, rfl, h.key_plain.2, by simp [h.key_trimmed],
    by simp [h.value_trimmed]⟩

/-- No semicolon stands in a pair that can be written. -/
theorem IsEntry.semicolon_notMem (h : IsEntry key value) :
    ';' ∉ segmentFor (key, value) := by
  simp [segmentFor, h.key_plain.1, h.value_plain]

/-- What is written is cut into the pairs again. -/
theorem segments_render {pairs : List (String × String)} (hne : pairs ≠ [])
    (h : ∀ kv ∈ pairs, IsEntry kv.1 kv.2) :
    segmentsOf (render pairs) = pairs.map segmentFor := by
  -- The text is the segments with semicolons between them.
  have htext : (render pairs).toList = [';'].intercalate (pairs.map segmentFor) := by
    rw [render, String.toList_intercalate, List.map_map]
    congr 1
    refine List.map_congr_left fun kv _ => ?_
    simp [segmentFor]
  rw [segmentsOf, htext]
  refine Text.splitOn_intercalate (by simpa using hne) fun w hw => ?_
  obtain ⟨kv, hkv, rfl⟩ := List.mem_map.1 hw
  exact (h kv hkv).semicolon_notMem

/-- Pairs with keys of their own are what the segments they are written as give. -/
theorem lastAssigns_map_iff {pairs : List (String × String)}
    (h : ∀ kv ∈ pairs, IsEntry kv.1 kv.2) (hlone : (pairs.map (·.1)).Nodup) :
    LastAssigns (pairs.map segmentFor) key value ↔ (key, value) ∈ pairs := by
  constructor
  -- A segment that gives the value is that of a pair with it.
  · rintro ⟨before, segment, after, heq, hassigns, -⟩
    have hmem : segment ∈ pairs.map segmentFor := by simp [heq]
    obtain ⟨kv, hkv, rfl⟩ := List.mem_map.1 hmem
    obtain ⟨rfl, rfl⟩ := hassigns.unique (h kv hkv).assigns
    exact hkv
  -- The pair gives the value, and no later one has its key.
  · intro hmem
    have hassigns := (h _ hmem).assigns
    obtain ⟨before, after, rfl⟩ := List.append_of_mem hmem
    refine ⟨before.map segmentFor, segmentFor (key, value), after.map segmentFor, by simp, hassigns,
      fun later hlater other hother => ?_⟩
    obtain ⟨kv, hkv, rfl⟩ := List.mem_map.1 hlater
    obtain ⟨rfl, -⟩ := hother.unique (h kv (by simp [hkv])).assigns
    -- There would be two pairs with one key.
    rw [List.map_append, List.map_cons, List.nodup_append, List.nodup_cons] at hlone
    exact hlone.2.1.1 (List.mem_map.2 ⟨kv, hkv, rfl⟩)

/-- Properties that can be written are read back, in whatever order their pairs are written. -/
theorem parse_render {ps : Properties} (h : Writable ps) {pairs : List (String × String)}
    (hpairs : pairs.Perm ps.toList) : parse (render pairs) = .ok ps := by
  -- The pairs are those of the properties, in another order.
  have hmem (key value : String) : (key, value) ∈ pairs ↔ ps[key]? = some value := by
    rw [hpairs.mem_iff, Std.ExtTreeMap.mem_toList_iff_getElem?_eq_some]
  have hentry (kv : String × String) (hkv : kv ∈ pairs) : IsEntry kv.1 kv.2 :=
    h _ _ ((hmem _ _).1 hkv)
  have hlone : (pairs.map (·.1)).Nodup := by
    rw [(hpairs.map _).nodup_iff, Std.ExtTreeMap.map_fst_toList_eq_keys]
    exact ps.nodup_keys
  -- Without pairs there is nothing to read.
  by_cases hne : pairs = []
  · subst hne
    rw [Std.ExtTreeMap.toList_eq_nil_iff.1 hpairs.nil_eq.symm]
    rfl
  · have hsegments := segments_render hne hentry
    rcases gather_cases (segmentsOf (render pairs)) with
      ⟨⟨bad, hbad, hmal⟩, -⟩ | ⟨-, qs, hqs, hlast⟩
    -- No segment is malformed, as each is that of a pair.
    · rw [hsegments] at hbad
      obtain ⟨kv, hkv, rfl⟩ := List.mem_map.1 hbad
      have hkey := (hentry kv hkv).assigns.malformed_iff.1 hmal
      exact absurd hkey (hentry kv hkv).key_ne
    -- Every key has the value of its pair.
    · have hsame : qs = ps := by
        apply Std.ExtTreeMap.ext_getElem?
        intro key
        apply Option.ext
        intro value
        rw [hlast, hsegments, lastAssigns_map_iff hentry hlone, hmem]
      rw [parse_eq_gather, hqs, hsame]

/-- A text is refused exactly when a segment is malformed.  Any other text gives properties that
    can be written, with the value for each key that the last segment with it gives.  And
    properties that can be written are read back, in whatever order their pairs are written. -/
theorem parsed_iff_assigned :
    (∀ raw, ((∃ refusal, parse raw = .error refusal) ↔
        ∃ segment ∈ segmentsOf raw, Malformed segment) ∧
      ∀ ps, parse raw = .ok ps → Writable ps ∧
        ∀ key value, ps[key]? = some value ↔ LastAssigns (segmentsOf raw) key value) ∧
    ∀ ps, Writable ps → ∀ pairs : List (String × String), pairs.Perm ps.toList →
      parse (render pairs) = .ok ps := by
  refine ⟨fun raw => ?_, fun ps h pairs hpairs => parse_render h hpairs⟩
  rw [parse_eq_gather]
  rcases gather_cases (segmentsOf raw) with ⟨hbad, refusal, herror⟩ | ⟨hgood, ps, hps, hlast⟩
  -- A segment is malformed, and the text was refused.
  · rw [herror]
    exact ⟨iff_of_true ⟨refusal, rfl⟩ hbad, nofun⟩
  -- No segment is malformed, and the text was not refused.
  · rw [hps]
    refine ⟨iff_of_false nofun ?_, ?_⟩
    · rintro ⟨segment, hmem, hbad⟩
      exact hgood segment hmem hbad
    · rintro _ ⟨⟩
      -- What a segment gives can be written, as the text was cut at semicolons.
      refine ⟨fun key value hlookup => ?_, hlast⟩
      obtain ⟨before, segment, after, heq, hassigns, -⟩ := (hlast key value).1 hlookup
      have hmem : segment ∈ segmentsOf raw := by simp [heq]
      refine hassigns.isEntry (hgood segment hmem) fun hsemicolon => ?_
      simpa using Text.mem_of_mem_splitOn hmem ';' hsemicolon

/-- An owner and the number of retries. -/
private def ownedProperties : Properties :=
  ((∅ : Properties).insert "owner" "platform").insert "retries" "3"

/-- Blank segments are skipped and the second number counts; the pairs may be written with the
    number in front. -/
theorem parsed_with_last_retries :
    parse " owner = platform ;; retries=2;retries =3; " = .ok ownedProperties ∧
      LastAssigns (segmentsOf " owner = platform ;; retries=2;retries =3; ") "retries" "3" ∧
      parse (render [("retries", "3"), ("owner", "platform")]) = .ok ownedProperties := by
  -- The text is read, and so the theorem speaks of its properties.
  have hparse : parse " owner = platform ;; retries=2;retries =3; " = .ok ownedProperties :=
    toOption_eq_some.1 (by decide +kernel)
  obtain ⟨hwritable, hlast⟩ := (parsed_iff_assigned.1 _).2 ownedProperties hparse
  exact ⟨hparse, (hlast "retries" "3").1 (by decide +kernel),
    parsed_iff_assigned.2 ownedProperties hwritable _ (by decide +kernel)⟩

end Settings.JobProperties

end FlowCadence
