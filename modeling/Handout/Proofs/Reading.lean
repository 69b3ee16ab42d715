/-
# What a document that was read holds

A text is read as a document exactly when some nodes tile it and each is a run
of text or the tag of a snippet (`parse_eq_ok_iff`). From the tiling follows
what rendering relies on. Runs of text are never empty and never side by side,
and they are plain unless they end the document. The indentation of a snippet is
the blank end of the run before it. Its task has one digit a level, and its
variants were read from plain blocks (`Readable`, `readable_of_parse`).

Key definitions: `trailing`, `PieceOf`, `Snippet.Read`, `Readable`.
Key theorems: `ofTag_eq_ok_iff`, `piecesOf_eq_ok_iff`, `parse_eq_ok_iff`,
`readable_of_parse`.
-/
import Handout.Document.Basic
import Handout.Proofs.Searching
import Handout.Proofs.Tiling
import Handout.Proofs.Toggling
import Mathlib.Data.List.Forall2

namespace Handout

/-! ### Sequences of answers -/

theorem bind_eq_ok_iff {ε α β : Type} {x : Except ε α} {f : α → Except ε β} {b : β} :
    (x >>= f) = .ok b ↔ ∃ a, x = .ok a ∧ f a = .ok b := by
  cases x with
  | error e => simp [bind, Except.bind]
  | ok a => simp [bind, Except.bind]

namespace Snippet

/-- A tag is read as a snippet exactly when its task and its variants can be
read, it holds no other tags, and one variant at most is live. -/
theorem ofTag_eq_ok_iff {source : Text} {o : Opening} {children : List Node} {s : Snippet} :
    ofTag source o children = .ok s ↔
      s.indentation = indentationBefore source o.start ∧ taskOf o.attributes = .ok s.task ∧
        (∀ k, variantOf source children k = .ok (s.variant? k)) ∧
          unknownNames children = [] ∧ s.liveKinds.length ≤ 1 := by
  unfold ofTag
  simp only [bind_eq_ok_iff]
  constructor
  · rintro ⟨task, ht, st, h1, so, h2, sp, h3, h⟩
    split_ifs at h with hu hl
    rw [Except.ok.injEq] at h
    subst h
    refine ⟨rfl, ht, fun k => ?_, by simpa using hu, by omega⟩
    cases k
    · exact h1
    · exact h2
    · exact h3
  · rintro ⟨hi, ht, hv, hu, hl⟩
    refine ⟨s.task, ht, s.student, hv .student, s.solution, hv .solution, s.special, hv .special, ?_⟩
    have hs : (⟨indentationBefore source o.start, s.task, s.student, s.solution, s.special⟩ :
        Snippet) = s := by rw [← hi]
    rw [hs, if_neg (by simpa using hu), if_neg (by omega)]

end Snippet

/-- A node and the piece that it is read as. -/
def PieceOf (source : Text) : Node → Piece → Prop
  | .text span, .text span' => span = span'
  | .tag o _ children, .snippet s =>
    o.name = Snippet.tagName ∧ Snippet.ofTag source o children = .ok s
  | _, _ => False

theorem piecesOf_eq_ok_iff {source : Text} : ∀ {nodes : List Node} {pieces : List Piece},
    piecesOf source nodes = .ok pieces ↔ List.Forall₂ (PieceOf source) nodes pieces
  | [], pieces => by
    rw [piecesOf, Except.ok.injEq]
    constructor
    · rintro rfl; exact .nil
    · rintro ⟨⟩; rfl
  | .text span :: r, pieces => by
    simp only [piecesOf, bind_eq_ok_iff, List.forall₂_cons_left_iff]
    constructor
    · rintro ⟨rest, hr, h⟩
      cases h
      exact ⟨.text span, rest, rfl, piecesOf_eq_ok_iff.mp hr, rfl⟩
    · rintro ⟨p, rest, hp, hr, rfl⟩
      cases p with
      | text span' => exact ⟨rest, piecesOf_eq_ok_iff.mpr hr, by rw [show span = span' from hp]; rfl⟩
      | snippet s => exact absurd hp id
  | .tag o c children :: r, pieces => by
    rw [piecesOf, List.forall₂_cons_left_iff]
    by_cases hn : o.name = Snippet.tagName
    · simp only [hn, ne_eq, not_true_eq_false, ↓reduceIte, bind_eq_ok_iff]
      constructor
      · rintro ⟨s, hs, rest, hr, h⟩
        cases h
        exact ⟨.snippet s, rest, ⟨hn, hs⟩, piecesOf_eq_ok_iff.mp hr, rfl⟩
      · rintro ⟨p, rest, hp, hr, rfl⟩
        cases p with
        | text span' => exact absurd hp id
        | snippet s => exact ⟨s, hp.2, rest, piecesOf_eq_ok_iff.mpr hr, rfl⟩
    · rw [if_pos hn]
      constructor
      · intro h; cases h
      · rintro ⟨p, rest, hp, hr, rfl⟩
        cases p with
        | text span' => exact absurd hp id
        | snippet s => exact absurd hp.1 hn

/-- A text is read as the document whose pieces are the nodes that tile it. -/
theorem parse_eq_ok_iff {t : Text} {d : Document} : Document.parse t = .ok d ↔
    d.source = t ∧ ∃ nodes, Tiles 0 t nodes t.length [] ∧
      List.Forall₂ (PieceOf t) nodes d.pieces := by
  unfold Document.parse
  simp only [bind_eq_ok_iff, parseForest_eq_ok_iff, piecesOf_eq_ok_iff]
  constructor
  · rintro ⟨nodes, hn, pieces, hp, h⟩
    cases h
    exact ⟨rfl, nodes, hn, hp⟩
  · rintro ⟨rfl, nodes, hn, hp⟩
    exact ⟨nodes, hn, d.pieces, hp, rfl⟩

/-! ### Where nodes stand -/

theorem slice_append {a t : Text} {n : Nat} (h : a.length = n) (next : Text) :
    Text.slice (a ++ (t ++ next)) n t.length = t := by
  simp [Text.slice, ← h]

theorem Tiles.split {a b : Nat} {t rest : Text} {nodes : List Node} (h : Tiles a t nodes b rest) :
    ∃ x, t = x ++ rest ∧ b = a + x.length := by
  induction h with
  | nil => exact ⟨[], rfl, rfl⟩
  | text _ _ _ _ ih =>
    obtain ⟨x, rfl, rfl⟩ := ih
    refine ⟨_ ++ x, (List.append_assoc ..).symm, ?_⟩
    rw [List.length_append, Nat.add_assoc]
  | tag _ _ _ _ ih1 ih2 =>
    rename_i a b c w g inner next rest children nodes _ _ _ _
    obtain ⟨x, rfl, rfl⟩ := ih1
    obtain ⟨y, rfl, rfl⟩ := ih2
    refine ⟨openingText w g ++ x ++ closingText w ++ y, by simp, ?_⟩
    simp only [List.length_append]
    omega
  | bare _ _ ih =>
    obtain ⟨x, rfl, rfl⟩ := ih
    refine ⟨_ ++ x, (List.append_assoc ..).symm, ?_⟩
    rw [List.length_append, Nat.add_assoc]

/-- The blank end of a text on its last line. -/
def trailing (t : Text) : Text :=
  (t.reverse.takeWhile isInlineBlank).reverse

theorem indentationBefore_append (a next : Text) :
    indentationBefore (a ++ next) a.length = trailing a := by
  simp [indentationBefore, trailing]

/-- The text ends with a character that is not blank, or is empty. -/
def EndsSolid (t : Text) : Prop := ∀ c, t.getLast? = some c → isInlineBlank c = false

theorem trailing_append {a : Text} (ha : EndsSolid a) (b : Text) :
    trailing (a ++ b) = trailing b := by
  unfold trailing
  rw [List.reverse_append, List.takeWhile_append]
  split_ifs with h
  · have : a.reverse.takeWhile isInlineBlank = [] := by
      cases hr : a.reverse with
      | nil => rfl
      | cons c r =>
        have hc := ha c (by rw [← List.head?_reverse, hr]; rfl)
        simp [hc]
    rw [this, List.append_nil, List.takeWhile_eq_self_iff.mpr]
    intro c hc
    have hb : (b.reverse.takeWhile isInlineBlank) = b.reverse :=
      (List.takeWhile_prefix _).eq_of_length h
    exact List.mem_takeWhile_imp (hb ▸ hc)
  · rfl

theorem endsSolid_append_gt (a : Text) : EndsSolid (a ++ ['>']) := by
  intro c hc
  simp only [List.getLast?_append, List.getLast?_singleton, Option.some_or, Option.some.injEq] at hc
  rw [← hc]
  decide

theorem mem_trailing {t : Text} {c : Char} (h : c ∈ trailing t) : isInlineBlank c = true := by
  rw [trailing, List.mem_reverse] at h
  exact List.mem_takeWhile_imp h

/-! ### Tasks that were read -/

theorem TaskNumber.digit?_le {c : Char} {n : Nat} (h : digit? c = some n) : n ≤ 9 := by
  unfold digit? at h
  split_ifs at h with hc
  rw [Option.some.injEq] at h
  have h9 : c.toNat ≤ '9'.toNat := hc.2
  have : '9'.toNat = 57 ∧ '0'.toNat = 48 := by decide
  omega

theorem TaskNumber.dotDigit?_le {t r : Text} {n : Nat} (h : dotDigit? t = some (n, r)) :
    n ≤ 9 := by
  unfold dotDigit? at h
  split at h
  · obtain ⟨m, hm, he⟩ := Option.map_eq_some_iff.mp h
    rw [Prod.mk.injEq] at he
    exact he.1 ▸ digit?_le hm
  · cases h

/-- A level of a number that was read is one digit. -/
theorem TaskNumber.read?_levels {t : Text} {n : TaskNumber} {length : Nat}
    (h : read? t = some (n, length)) : ∀ l ∈ n.levels, l ≤ 9 := by
  unfold read? at h
  split at h
  · cases h
  · split at h
    · cases h
    · rename_i a ha
      have ha := digit?_le ha
      split at h
      · cases h
        simpa [levels] using ha
      · rename_i b r hb
        have hb := dotDigit?_le hb
        split at h
        · cases h
          simpa [levels] using ⟨ha, hb⟩
        · rename_i d _ hd
          have hd := dotDigit?_le hd
          cases h
          simpa [levels] using ⟨ha, hb, hd⟩

theorem TaskNumber.parse?_levels {t : Text} {n : TaskNumber} (h : parse? t = some n) :
    ∀ l ∈ n.levels, l ≤ 9 := by
  unfold parse? at h
  split at h
  · rename_i x hx
    cases h
    have hm : x ∈ Pattern.occurrencesFrom (fun _ => read?) 0 0 none t := by
      rw [Pattern.occurrences] at hx
      rw [hx]
      exact List.mem_cons_self ..
    obtain ⟨i, -, -, hr⟩ := Pattern.exists_of_mem_occurrencesFrom hm
    rw [Pattern.readAt_const rfl] at hr
    exact read?_levels hr
  · cases h

theorem Snippet.taskOf_levels {attributes : Attributes} {n : TaskNumber}
    (h : taskOf attributes = .ok (some n)) : ∀ l ∈ n.levels, l ≤ 9 := by
  unfold taskOf at h
  split at h
  · cases h
  · split at h
    · rename_i m hm
      cases h
      exact TaskNumber.parse?_levels hm
    · cases h

/-! ### Snippets and pieces that were read -/

/-- What a snippet that was read holds. -/
structure Snippet.Read (s : Snippet) : Prop where
  indentation : ∀ c ∈ s.indentation, isInlineBlank c = true
  task : ∀ n, s.task = some n → ∀ l ∈ n.levels, l ≤ 9
  variant : ∀ k v, s.variant? k = some v → ∃ raw, Plain raw ∧ v = Variant.ofBlock raw

/-- What the pieces of a source are, when the text `gap` since the last snippet is
before them. -/
def Readable (source : Text) : (gap : Text) → List Piece → Prop
  | _, [] => True
  | gap, .text span :: r => gap = [] ∧ span.text source ≠ [] ∧
      (r = [] → Silent (span.text source) []) ∧ (r ≠ [] → Plain (span.text source)) ∧
        Readable source (span.text source) r
  | gap, .snippet s :: r => s.indentation = trailing gap ∧ s.Read ∧ Readable source [] r

theorem Tiles.marksAt {a b : Nat} {t rest : Text} {nodes : List Node} (h : Tiles a t nodes b rest)
    (h0 : nodes ≠ []) (hn : ∀ span, nodes.head? ≠ some (.text span)) : marksAt t = true := by
  cases h with
  | nil => exact absurd rfl h0
  | text => exact absurd rfl (hn _)
  | tag ho _ _ _ => exact marksAt_iff.mpr (.inl ⟨_, _, _, ho, rfl⟩)
  | bare ho _ => exact marksAt_iff.mpr (.inl ⟨_, _, _, ho, rfl⟩)

theorem marksAt_closingText {w : Text} (hw : IsName w) (next : Text) :
    marksAt (closingText w ++ next) = true :=
  marksAt_iff.mpr (.inr ⟨w, next, hw, rfl⟩)

/-- A run of text alone spells all there is. -/
theorem Tiles.of_text {a b : Nat} {t rest : Text} {span : Span}
    (h : Tiles a t [.text span] b rest) :
    ∃ u, t = u ++ rest ∧ span = ⟨a, u.length⟩ ∧ Silent u rest := by
  cases h with
  | text _ silent _ more =>
    cases more with
    | nil => exact ⟨_, rfl, rfl, silent⟩

/-- A tag that holds nothing but text holds a plain text. -/
theorem Tiles.plain_of_tag {source : Text} {a b : Nat} {t rest : Text} {nodes : List Node}
    (h : Tiles a t nodes b rest) : ∀ (front : Text), source = front ++ t → front.length = a →
    ∀ o span, (o, [.text span]) ∈ Node.tags nodes → Plain (span.text source) := by
  induction h with
  | nil => intro front _ _ o span hm; simp [Node.tags] at hm
  | @text a b t next rest nodes _ _ _ _ ih =>
    intro front hs hf o span hm
    exact ih (front ++ t) (by rw [hs, List.append_assoc]) (by rw [List.length_append, hf]) o span hm
  | @tag a b c w g inner next rest children nodes ho _ inside _ _ ih =>
    intro front hs hf o span hm
    rw [Node.tags, List.mem_cons] at hm
    rcases hm with hm | hm
    · rw [Prod.mk.injEq] at hm
      obtain ⟨-, rfl⟩ := hm
      obtain ⟨u, rfl, rfl, silent⟩ := inside.of_text
      have hu : (⟨a + (openingText w g).length, u.length⟩ : Span).text source = u := by
        rw [hs, ← List.append_assoc]
        exact slice_append (by rw [List.length_append, hf]) _
      rw [hu]
      exact silent.plain (marksAt_closingText ho.isName next)
    · obtain ⟨x, rfl, hc⟩ := inside.split
      refine ih (front ++ openingText w g ++ x ++ closingText w) (by rw [hs]; simp) ?_ o span hm
      simp only [List.length_append]
      omega
  | @bare a b w g next rest nodes _ _ ih =>
    intro front hs hf o span hm
    rw [Node.tags, List.mem_cons] at hm
    rcases hm with hm | hm
    · simp at hm
    · exact ih (front ++ openingText w (g ++ ['/', '/', '<', '/'] ++ w))
        (by rw [hs, ← List.append_assoc]) (by rw [List.length_append, hf]) o span hm

theorem Snippet.exists_of_variantOf {source : Text} {children : List Node} {k : Kind} {v : Variant}
    (h : variantOf source children k = .ok (some v)) :
    ∃ o span, (o, [.text span]) ∈ Node.tags children ∧ v = Variant.ofBlock (span.text source) := by
  unfold variantOf at h
  split at h
  · cases h
  · cases h
  · rename_i o span hf
    cases h
    exact ⟨o, span, List.mem_of_find?_eq_some hf, rfl⟩
  · cases h

/-- A snippet has the indentation of the text before it and plain variants. -/
theorem Snippet.read_of_ofTag {source inner rest : Text} {a c : Nat} {o : Opening}
    {children : List Node} {s : Snippet} (h : ofTag source o children = .ok s)
    (hi : Tiles a inner children c rest) (front : Text) (hs : source = front ++ inner)
    (hf : front.length = a) : s.Read := by
  obtain ⟨hind, htask, hv, -, -⟩ := ofTag_eq_ok_iff.mp h
  refine ⟨fun d hd => ?_, fun n hn => taskOf_levels (hn ▸ htask), fun k v hk => ?_⟩
  · rw [hind] at hd
    exact mem_trailing hd
  · obtain ⟨o', span, hm, rfl⟩ := exists_of_variantOf (hk ▸ hv k)
    exact ⟨_, hi.plain_of_tag front hs hf o' span hm, rfl⟩

/-- The nodes of a tiling are read as such pieces, whatever stands before
them. The induction is on the tiling; what is left of it is all text since the
last marker. -/
theorem Tiles.readable {source : Text} {a b : Nat} {t rest : Text} {nodes : List Node}
    (h : Tiles a t nodes b rest) (hr : rest = []) : ∀ (front gap : Text) (pieces : List Piece),
    source = front ++ gap ++ t → (front ++ gap).length = a → EndsSolid front →
    ((∃ span, nodes.head? = some (.text span)) → gap = []) →
    List.Forall₂ (PieceOf source) nodes pieces → Readable source gap pieces := by
  induction h with
  | nil =>
    intro front gap pieces _ _ _ _ hp
    cases hp
    trivial
  | @text a b t next rest nodes ne_nil silent apart more ih =>
    intro front gap pieces hs hf hsolid hgap hp
    obtain ⟨p, r, hpt, hpr, rfl⟩ := List.forall₂_cons_left_iff.mp hp
    cases p with
    | snippet s => exact absurd hpt id
    | text span =>
      cases hpt
      obtain rfl := hgap ⟨_, rfl⟩
      rw [List.append_nil] at hs hf
      have ht : (⟨a, t.length⟩ : Span).text source = t := by
        rw [hs]
        exact slice_append hf next
      rw [Readable, ht]
      refine ⟨rfl, ne_nil, fun h0 => ?_, fun h0 => ?_, ?_⟩
      · subst h0
        cases hpr
        cases more
        exact hr ▸ silent
      · refine silent.plain (more.marksAt ?_ apart)
        rintro rfl
        cases hpr
        exact h0 rfl
      · exact ih hr front t r (by rw [hs, List.append_assoc]) (by rw [List.length_append, hf])
          hsolid (fun ⟨span, hsp⟩ => absurd hsp (apart span)) hpr
  | @tag a b c w g inner next rest children nodes ho _ inside _ _ ih =>
    intro front gap pieces hs hf hsolid _ hp
    obtain ⟨p, r, hpt, hpr, rfl⟩ := List.forall₂_cons_left_iff.mp hp
    cases p with
    | text span => exact absurd hpt id
    | snippet s =>
      obtain ⟨-, hs'⟩ := hpt
      refine ⟨?_, Snippet.read_of_ofTag hs' inside (front ++ gap ++ openingText w g)
        (by rw [hs, List.append_assoc]; simp) (by rw [List.length_append, hf]), ?_⟩
      · rw [(Snippet.ofTag_eq_ok_iff.mp hs').1, hs, ← hf, indentationBefore_append,
          trailing_append hsolid]
      · obtain ⟨x, rfl, hc⟩ := inside.split
        refine ih hr (front ++ gap ++ openingText w g ++ x ++ closingText w) [] r (by rw [hs]; simp)
          ?_ ?_ (fun _ => rfl) hpr
        · simp only [List.length_append, List.length_nil] at hf ⊢
          omega
        · rw [closingText, ← List.append_assoc]
          exact endsSolid_append_gt _
  | @bare a b w g next rest nodes _ _ ih =>
    intro front gap pieces hs hf hsolid _ hp
    obtain ⟨p, r, hpt, hpr, rfl⟩ := List.forall₂_cons_left_iff.mp hp
    cases p with
    | text span => exact absurd hpt id
    | snippet s =>
      obtain ⟨-, hs'⟩ := hpt
      refine ⟨?_, Snippet.read_of_ofTag hs' (.nil _ source) [] rfl rfl, ?_⟩
      · rw [(Snippet.ofTag_eq_ok_iff.mp hs').1, hs, ← hf, indentationBefore_append,
          trailing_append hsolid]
      · refine ih hr (front ++ gap ++ openingText w (g ++ ['/', '/', '<', '/'] ++ w)) [] r
          (by rw [hs]; simp) (by rw [List.append_nil, List.length_append, hf]) ?_ (fun _ => rfl) hpr
        rw [openingText, ← List.append_assoc]
        exact endsSolid_append_gt _

/-- **The pieces of a document that was read.** -/
theorem readable_of_parse {t : Text} {d : Document} (h : Document.parse t = .ok d) :
    d.source = t ∧ Readable d.source [] d.pieces := by
  obtain ⟨hd, nodes, hn, hp⟩ := parse_eq_ok_iff.mp h
  refine ⟨hd, ?_⟩
  rw [hd]
  exact hn.readable rfl [] [] d.pieces rfl rfl (by simp [EndsSolid]) (fun _ => rfl) hp

end Handout
