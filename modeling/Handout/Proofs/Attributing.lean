/-
# Attributes that are written are read again

Attributes are written one after another, each `key="value"` after a space. The search for
pairs passes the space, takes the pair up to its second quote, and goes on behind it with
the next space; so it never looks into a value, whatever the value holds
(`occurrencesFrom_attributeText`), and finds the pairs that were written
(`read_attributesText`).

A pair that is put replaces the value of its key, or comes last if the key is new. So the
keys are in the order in which they first appear (`map_fst_ofPairs`), each with the last
value that it is given (`lookup_of_mem_ofPairs`).

Written attributes are a region that an opening marker can have, since they hold no `>` and
end with a quote (`isOpening_attributesText`).

Key definitions: `IsAttribute`, `attributeText`, `attributesText`.
Key theorems: `Attributes.read_attributesText`, `Attributes.map_fst_ofPairs`,
`Attributes.lookup_of_mem_ofPairs`, `attributes_survive`.
-/
import Handout.Proofs.Scanning
import Handout.Proofs.Searching
import Mathlib.Data.List.Induction

namespace Handout

open Marker

/-- A key and a value that an attribute can have. -/
structure IsAttribute (p : Text × Text) : Prop where
  key : IsName p.1
  quote : '"' ∉ p.2
  feed : '\n' ∉ p.2
  gt : '>' ∉ p.2

/-- An attribute as it is written, after a space. -/
def attributeText (p : Text × Text) : Text :=
  [' '] ++ p.1 ++ ['=', '"'] ++ p.2 ++ ['"']

/-- Attributes as they are written. -/
def attributesText (pairs : List (Text × Text)) : Text :=
  pairs.flatMap attributeText

theorem length_attributeText (p : Text × Text) :
    (attributeText p).length = p.1.length + 2 + p.2.length + 2 := by
  simp only [attributeText, List.length_append, List.length_cons, List.length_nil]
  omega

namespace Attributes

/-! ### The pairs that are found -/

theorem value?_append : ∀ {v : Text}, '"' ∉ v → '\n' ∉ v → ∀ r : Text,
    value? (v ++ '"' :: r) = some v
  | [], _, _, r => by simp [value?]
  | c :: v, hq, hn, r => by
    have h1 : c ≠ '"' := fun e => hq (e ▸ List.mem_cons_self ..)
    have h2 : c ≠ '\n' := fun e => hn (e ▸ List.mem_cons_self ..)
    rw [List.cons_append, value?, if_neg h1, if_neg h2,
      value?_append (fun hm => hq (List.mem_cons_of_mem _ hm))
        (fun hm => hn (List.mem_cons_of_mem _ hm))]
    rfl

/-- Behind a space a pair is read as it is written. -/
theorem pair_append {p : Text × Text} (h : IsAttribute p) (r : Text) :
    pair (some ' ') (p.1 ++ '=' :: '"' :: (p.2 ++ '"' :: r)) =
      some (p, p.1.length + 2 + p.2.length + 1) := by
  have hrest : ∀ c, ('=' :: '"' :: (p.2 ++ '"' :: r)).head? = some c → isWord c = false := by
    intro c hc
    rw [List.head?_cons, Option.some.injEq] at hc
    rw [← hc]
    decide
  have hblank : isWord ' ' = false := by decide
  have hkey : p.1.isEmpty = false := by simpa using h.key.ne_nil
  rw [pair, Text.word_append h.key.word hrest, Text.afterWord_append h.key.word hrest, Option.any,
    hblank, hkey]
  simp only [Bool.or_self, Bool.false_eq_true, if_false, value?_append h.quote h.feed]
  rfl

/-- The search takes an attribute and goes on behind it. -/
theorem occurrencesFrom_attributeText {p : Text × Text} (h : IsAttribute p) (start : Nat)
    (before : Option Char) (r : Text) :
    pair.occurrencesFrom start 0 before (attributeText p ++ r) =
      ⟨start + 1, p.1.length + 2 + p.2.length + 1, p⟩ ::
        pair.occurrencesFrom (start + (attributeText p).length) 0 (some '"') r := by
  have hspace : ∀ t, pair before (' ' :: t) = none := by
    intro t
    have hword : (Text.word (' ' :: t)).isEmpty = true := by
      rw [Text.word, List.takeWhile_cons_of_neg (by decide)]
      rfl
    rw [pair, hword, Bool.or_true, if_pos rfl]
  obtain ⟨c, k, hk⟩ := List.exists_cons_of_ne_nil h.key.ne_nil
  -- What the pair covers behind its first character.
  set covered : Text := k ++ ['=', '"'] ++ p.2 ++ ['"'] with hcovered
  have htext : attributeText p ++ r = ' ' :: c :: (covered ++ r) := by
    simp [attributeText, hk, hcovered]
  have hlength : p.1.length + 2 + p.2.length + 1 - 1 = covered.length := by
    simp only [hk, hcovered, List.length_append, List.length_cons, List.length_nil]
    omega
  have hlast : covered.getLast?.or (some c) = some '"' := by
    rw [hcovered, List.getLast?_append_of_ne_nil _ (List.cons_ne_nil _ _)]
    rfl
  have hpair : pair (some ' ') (c :: (covered ++ r)) =
      some (p, p.1.length + 2 + p.2.length + 1) := by
    rw [← pair_append h r]
    simp [hk, hcovered]
  have hstart : start + 1 + 1 + covered.length = start + (attributeText p).length := by
    rw [length_attributeText, ← hlength]
    omega
  rw [htext, Pattern.occurrencesFrom_of_none (hspace _), Pattern.occurrencesFrom_of_some hpair,
    hlength, Pattern.occurrencesFrom_append, hlast, hstart]

/-- The search finds the pairs that were written. -/
theorem map_value_occurrencesFrom : ∀ {pairs : List (Text × Text)}, (∀ p ∈ pairs, IsAttribute p) →
    ∀ (start : Nat) (before : Option Char),
      (pair.occurrencesFrom start 0 before (attributesText pairs)).map (·.value) = pairs
  | [], _, _, _ => rfl
  | p :: pairs, h, start, before => by
    have hp : IsAttribute p := h p (List.mem_cons_self ..)
    have ih := map_value_occurrencesFrom (fun q hq => h q (List.mem_cons_of_mem _ hq))
      (start + (attributeText p).length) (some '"')
    rw [attributesText, List.flatMap_cons, occurrencesFrom_attributeText hp, List.map_cons,
      ← attributesText, ih]

/-- **Written attributes are read as they are**, whatever their values hold. -/
theorem read_attributesText {pairs : List (Text × Text)} (h : ∀ p ∈ pairs, IsAttribute p) :
    read (attributesText pairs) = ofPairs pairs := by
  rw [read, Pattern.occurrences, map_value_occurrencesFrom h]

/-! ### Pairs put one after another -/

theorem ofPairs_append_singleton (pairs : List (Text × Text)) (p : Text × Text) :
    ofPairs (pairs ++ [p]) = put p.1 p.2 (ofPairs pairs) := by
  rw [ofPairs, List.foldl_append]
  rfl

/-- Putting a value adds its key at the end if it is new. -/
theorem map_fst_put (key value : Text) : ∀ attributes : Attributes,
    (put key value attributes).map (·.1) =
      if key ∈ attributes.map (·.1) then attributes.map (·.1) else attributes.map (·.1) ++ [key]
  | [] => rfl
  | (k, v) :: r => by
    have ih := map_fst_put key value r
    rw [put]
    by_cases hk : k = key
    · rw [if_pos hk, if_pos (by simp [hk])]
      rfl
    · rw [if_neg hk, List.map_cons, ih]
      by_cases hr : key ∈ r.map (·.1)
      · have hmem : key ∈ ((k, v) :: r).map (·.1) := List.mem_cons_of_mem _ hr
        rw [if_pos hr, if_pos hmem]
        rfl
      · have hnot : key ∉ ((k, v) :: r).map (·.1) := by
          rw [List.map_cons, List.mem_cons, not_or]
          exact ⟨Ne.symm hk, hr⟩
        rw [if_neg hr, if_neg hnot]
        rfl

/-- **Keys keep the order in which they first appear.** -/
theorem map_fst_ofPairs (pairs : List (Text × Text)) :
    (ofPairs pairs).map (·.1) = (pairs.map (·.1)).eraseDups := by
  induction pairs using List.reverseRecOn with
  | nil => rfl
  | append_singleton pairs p ih =>
    rw [ofPairs_append_singleton, map_fst_put, ih, List.map_append, List.eraseDups_append]
    by_cases hp : p.1 ∈ pairs.map (·.1)
    · have hnone : (List.map (·.1) [p]).removeAll (pairs.map (·.1)) = [] := by
        simp [List.removeAll, hp]
      rw [if_pos (List.mem_eraseDups.mpr hp), hnone]
      exact (List.append_nil _).symm
    · have hone : (List.map (·.1) [p]).removeAll (pairs.map (·.1)) = [p.1] := by
        simp only [List.removeAll, List.map_cons, List.map_nil, List.filter_singleton,
          List.elem_eq_mem, decide_eq_false hp, Bool.not_false, cond_true]
      rw [if_neg (mt List.mem_eraseDups.mp hp), hone]
      rfl

theorem nodup_ofPairs (pairs : List (Text × Text)) : ((ofPairs pairs).map (·.1)).Nodup := by
  induction pairs using List.reverseRecOn with
  | nil => exact List.nodup_nil
  | append_singleton pairs p ih =>
    rw [ofPairs_append_singleton, map_fst_put]
    split_ifs with hp
    · exact ih
    · rw [List.nodup_append]
      refine ⟨ih, List.pairwise_singleton .., ?_⟩
      intro a ha b hb hab
      rw [List.mem_singleton] at hb
      exact hp (hb ▸ hab ▸ ha)

/-- What is there after a value was put is that value, or was there with another key. -/
theorem mem_put_cases {key value : Text} {p : Text × Text} : ∀ {attributes : Attributes},
    (attributes.map (·.1)).Nodup → p ∈ put key value attributes →
    p = (key, value) ∨ p.1 ≠ key ∧ p ∈ attributes
  | [], _, h => .inl (List.mem_singleton.mp h)
  | (k, v) :: r, hnodup, h => by
    rw [List.map_cons, List.nodup_cons] at hnodup
    rw [put] at h
    by_cases hk : k = key
    · rw [if_pos hk] at h
      rcases List.mem_cons.mp h with rfl | hr
      · exact .inl (by rw [hk])
      · refine .inr ⟨fun he => ?_, List.mem_cons_of_mem _ hr⟩
        apply hnodup.1
        exact List.mem_map.mpr ⟨p, hr, he.trans hk.symm⟩
    · rw [if_neg hk] at h
      rcases List.mem_cons.mp h with rfl | hr
      · exact .inr ⟨hk, List.mem_cons_self ..⟩
      · exact (mem_put_cases hnodup.2 hr).imp_right fun ⟨hne, hm⟩ =>
          ⟨hne, List.mem_cons_of_mem _ hm⟩

/-- **A key has the last value that it is given.** -/
theorem lookup_of_mem_ofPairs {pairs : List (Text × Text)} :
    ∀ p ∈ ofPairs pairs, pairs.reverse.lookup p.1 = some p.2 := by
  induction pairs using List.reverseRecOn with
  | nil => exact fun p hp => absurd hp List.not_mem_nil
  | append_singleton pairs q ih =>
    intro p hp
    rw [ofPairs_append_singleton] at hp
    rw [List.reverse_append, List.reverse_singleton, List.singleton_append]
    rcases mem_put_cases (nodup_ofPairs pairs) hp with rfl | ⟨hne, hm⟩
    · rw [List.lookup_cons, beq_self_eq_true]
    · rw [List.lookup_cons, beq_eq_false_iff_ne.mpr hne]
      exact ih p hm

end Attributes

/-! ### A marker with attributes -/

theorem getLast?_attributesText {pairs : List (Text × Text)} (h : pairs ≠ []) :
    (attributesText pairs).getLast? = some '"' := by
  obtain ⟨front, p, rfl⟩ := (List.eq_nil_or_concat' pairs).resolve_left h
  rw [attributesText, List.flatMap_append, List.flatMap_singleton, attributeText,
    ← List.append_assoc, List.getLast?_concat]

/-- Attributes can be the region of an opening marker. -/
theorem isOpening_attributesText {name : Text} (hn : IsName name) {pairs : List (Text × Text)}
    (h : ∀ p ∈ pairs, IsAttribute p) : IsOpening name (attributesText pairs) where
  isName := hn
  head := by
    intro c hc
    cases pairs with
    | nil => cases hc
    | cons p pairs =>
      have hspace : (attributesText (p :: pairs)).head? = some ' ' := rfl
      rw [hspace, Option.some.injEq] at hc
      rw [← hc]
      decide
  not_mem := by
    intro hm
    obtain ⟨p, hp, hgt⟩ := List.mem_flatMap.mp hm
    have hkey : '>' ∉ p.1 := (h p hp).key.not_mem (by decide)
    simp [attributeText, hkey, (h p hp).gt] at hgt
  last := by
    by_cases h0 : pairs = []
    · rw [h0]
      decide
    · rw [getLast?_attributesText h0]
      decide

theorem not_swallows_attributesText (pairs : List (Text × Text)) :
    ¬ Swallows (attributesText pairs) := by
  rintro ⟨before, name, hn, hregion⟩
  have hlast := congrArg List.getLast? hregion
  rw [List.getLast?_append_of_ne_nil _ hn.ne_nil] at hlast
  by_cases h0 : pairs = []
  · rw [h0] at hlast
    exact hn.ne_nil (List.getLast?_eq_none_iff.mp hlast.symm)
  · rw [getLast?_attributesText h0] at hlast
    exact hn.not_mem (c := '"') (by decide) (List.mem_of_getLast? hlast.symm)

/-- **Attributes survive writing and reading.** The marker of a name with attributes is read
as one opening marker that takes up the whole text and has that name, whatever the values
hold besides `"`, `>` and line feeds. Its attributes have the keys in the order in which
they first appear, each with the last value given to it. -/
theorem attributes_survive {name : Text} (hn : IsName name) {pairs : List (Text × Text)}
    (h : ∀ p ∈ pairs, IsAttribute p) :
    ∃ m : Opening, markers (openingText name (attributesText pairs)) = [.opening m] ∧
      m.start = 0 ∧ m.length = (openingText name (attributesText pairs)).length ∧
      m.name = name ∧ m.attributes.map (·.1) = (pairs.map (·.1)).eraseDups ∧
      ∀ p ∈ m.attributes, pairs.reverse.lookup p.1 = some p.2 := by
  set t := openingText name (attributesText pairs) with ht
  have hmarkers : markers t = [.opening ⟨0, t.length, name, attributesText pairs⟩] := by
    have hscan := scan_opening (isOpening_attributesText hn h) (not_swallows_attributesText pairs)
      0 []
    rwa [List.append_nil] at hscan
  have hread : Attributes.read (attributesText pairs) = .ofPairs pairs :=
    Attributes.read_attributesText h
  refine ⟨_, hmarkers, rfl, rfl, rfl, ?_, ?_⟩
  · rw [Opening.attributes, hread, Attributes.map_fst_ofPairs]
  · rw [Opening.attributes, hread]
    exact Attributes.lookup_of_mem_ofPairs

/-- The second key comes twice, and the values look like keys and markers. -/
def trickyPairs : List (Text × Text) :=
  [("a".toList, "x= b='1' //<a /".toList), ("b".toList, "".toList), ("a".toList, "\t2/".toList)]

theorem attributes_survive_trickyPairs : IsName "snippet".toList ∧
    (∀ p ∈ trickyPairs, IsAttribute p) ∧
    ∃ m : Opening, markers (openingText "snippet".toList (attributesText trickyPairs)) =
        [.opening m] ∧ m.attributes.map (·.1) = ["a".toList, "b".toList] ∧
      ∀ p ∈ m.attributes, trickyPairs.reverse.lookup p.1 = some p.2 := by
  have hn : IsName "snippet".toList := .of_all (by decide) (by decide)
  have hp : ∀ p ∈ trickyPairs, IsAttribute p := by
    intro p hm
    simp only [trickyPairs, List.mem_cons, List.not_mem_nil, or_false] at hm
    rcases hm with rfl | rfl | rfl
    · exact ⟨.of_all (by decide) (by decide), by decide, by decide, by decide⟩
    · exact ⟨.of_all (by decide) (by decide), by decide, by decide, by decide⟩
    · exact ⟨.of_all (by decide) (by decide), by decide, by decide, by decide⟩
  obtain ⟨m, hm, -, -, -, hkeys, hvalues⟩ := attributes_survive hn hp
  exact ⟨hn, hp, m, hm, hkeys.trans (by decide), hvalues⟩

end Handout
