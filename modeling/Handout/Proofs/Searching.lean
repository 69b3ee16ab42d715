/-
# What a search finds

A search tries a pattern from left to right and goes on behind what it took. Without
the search, its occurrences are told by two facts. A pattern that reads at an index
has its occurrence there, unless one before it goes on over that index
(`exists_mem_occurrencesFrom`). And an occurrence is where the pattern reads, behind the
end of all that begin before it (`exists_of_mem_occurrencesFrom`, `stop_le_of_start_lt`).
Each is proved by following the search; together they say which occurrences there
are (`mem_occurrences_iff`).

Key definitions: `Pattern.readAt`.
Key theorems: `Pattern.mem_occurrences_iff`, `Pattern.exists_mem_occurrences`.
-/
import Handout.Text.Occurrence
import Mathlib.Data.List.Basic

namespace Handout
namespace Pattern

variable {α : Type} {p : Pattern α}

/-- What the pattern reads at an index of a text that stands behind `before`. -/
def readAt (p : Pattern α) : (before : Option Char) → Text → Nat → Option (α × Nat)
  | _, [], _ => none
  | before, c :: r, 0 => p before (c :: r)
  | _, c :: r, i + 1 => readAt p (some c) r i

/-- A pattern that does not look at the character before reads the rest of the text. -/
theorem readAt_const {f : Text → Option (α × Nat)} (h0 : f [] = none) :
    ∀ (t : Text) (before : Option Char) (i : Nat),
    readAt (fun _ => f) before t i = f (t.drop i)
  | [], _, i => by rw [readAt, List.drop_nil, h0]
  | _ :: _, _, 0 => rfl
  | _ :: r, _, i + 1 => readAt_const h0 r _ i

/-! ### One step of the search -/

theorem occurrencesFrom_succ (start covered : Nat) (before : Option Char) (c : Char) (r : Text) :
    p.occurrencesFrom start (covered + 1) before (c :: r) =
      p.occurrencesFrom (start + 1) covered (some c) r := by
  rw [occurrencesFrom]

theorem occurrencesFrom_of_none {before : Option Char} {c : Char} {r : Text}
    (h : p before (c :: r) = none) (start : Nat) :
    p.occurrencesFrom start 0 before (c :: r) = p.occurrencesFrom (start + 1) 0 (some c) r := by
  rw [occurrencesFrom, h]

theorem occurrencesFrom_of_some {before : Option Char} {c : Char} {r : Text} {v : α} {n : Nat}
    (h : p before (c :: r) = some (v, n)) (start : Nat) :
    p.occurrencesFrom start 0 before (c :: r) =
      ⟨start, n, v⟩ :: p.occurrencesFrom (start + 1) (n - 1) (some c) r := by
  rw [occurrencesFrom, h]

/-- Behind the covered characters the search begins anew. -/
theorem occurrencesFrom_append (r : Text) : ∀ (a : Text) (start : Nat) (before : Option Char),
    p.occurrencesFrom start a.length before (a ++ r) =
      p.occurrencesFrom (start + a.length) 0 (a.getLast?.or before) r
  | [], _, _ => rfl
  | c :: a, start, before => by
    have hlast : (c :: a).getLast?.or before = a.getLast?.or (some c) := by
      cases a with
      | nil => rfl
      | cons d a =>
        rw [List.getLast?_cons_cons]
        have hsome := List.getLast?_eq_some_getLast (List.cons_ne_nil d a)
        rw [hsome]
        rfl
    rw [List.length_cons, List.cons_append, occurrencesFrom_succ, occurrencesFrom_append r a, hlast,
      Nat.add_assoc, Nat.add_comm 1]

/-! ### The whole search -/

/-- An occurrence is where the pattern reads, and not among the covered characters. -/
theorem exists_of_mem_occurrencesFrom {x : Occurrence α} :
    ∀ {t : Text} {start covered : Nat} {before : Option Char},
    x ∈ p.occurrencesFrom start covered before t →
    ∃ i, covered ≤ i ∧ x.start = start + i ∧ p.readAt before t i = some (x.value, x.length)
  | [], _, _, _, h => by simp [occurrencesFrom] at h
  | c :: r, start, covered, before, h => by
    have hnext : ∀ {covered'}, covered ≤ covered' + 1 →
        x ∈ p.occurrencesFrom (start + 1) covered' (some c) r →
        ∃ i, covered ≤ i ∧ x.start = start + i ∧
          p.readAt before (c :: r) i = some (x.value, x.length) := by
      intro covered' hle hx
      obtain ⟨i, hi, hs, hr⟩ := exists_of_mem_occurrencesFrom hx
      exact ⟨i + 1, by omega, by omega, hr⟩
    cases covered with
    | succ covered =>
      rw [occurrencesFrom_succ] at h
      exact hnext (Nat.le_refl _) h
    | zero =>
      cases hp : p before (c :: r) with
      | none =>
        rw [occurrencesFrom_of_none hp] at h
        exact hnext (Nat.zero_le _) h
      | some y =>
        rw [occurrencesFrom_of_some hp] at h
        rcases List.mem_cons.mp h with rfl | h
        · exact ⟨0, Nat.le_refl _, rfl, hp⟩
        · exact hnext (Nat.zero_le _) h

/-- An occurrence does not begin before an earlier one ends. -/
theorem stop_le_of_start_lt {x y : Occurrence α} :
    ∀ {t : Text} {start covered : Nat} {before : Option Char},
    x ∈ p.occurrencesFrom start covered before t →
    y ∈ p.occurrencesFrom start covered before t → x.start < y.start →
    x.start + x.length ≤ y.start
  | [], _, _, _, hx, _, _ => by simp [occurrencesFrom] at hx
  | c :: r, start, covered + 1, before, hx, hy, hlt => by
    rw [occurrencesFrom_succ] at hx hy
    exact stop_le_of_start_lt hx hy hlt
  | c :: r, start, 0, before, hx, hy, hlt => by
    cases hp : p before (c :: r) with
    | none =>
      rw [occurrencesFrom_of_none hp] at hx hy
      exact stop_le_of_start_lt hx hy hlt
    | some z =>
      rw [occurrencesFrom_of_some hp] at hx hy
      rcases List.mem_cons.mp hy with rfl | hy
      · rcases List.mem_cons.mp hx with rfl | hx
        · exact absurd hlt (Nat.lt_irrefl _)
        · obtain ⟨i, -, hs, -⟩ := exists_of_mem_occurrencesFrom hx
          simp only at hlt
          omega
      · rcases List.mem_cons.mp hx with rfl | hx
        · obtain ⟨i, hi, hs, -⟩ := exists_of_mem_occurrencesFrom hy
          simp only
          omega
        · exact stop_le_of_start_lt hx hy hlt

/-- Where the pattern reads it is found, unless an earlier occurrence goes on over
that index. -/
theorem exists_mem_occurrencesFrom {v : α} {n : Nat} :
    ∀ {t : Text} {covered : Nat} {before : Option Char} {i : Nat} (start : Nat),
    p.readAt before t i = some (v, n) → covered ≤ i →
    ∃ x ∈ p.occurrencesFrom start covered before t,
      x = ⟨start + i, n, v⟩ ∨ x.start < start + i ∧ start + i < x.start + x.length
  | [], _, _, _, _, h, _ => by cases h
  | c :: r, covered + 1, before, 0, start, _, hle => by cases hle
  | c :: r, 0, before, 0, start, h, _ => by
    rw [occurrencesFrom_of_some h]
    exact ⟨_, List.mem_cons_self .., .inl rfl⟩
  | c :: r, covered, before, i + 1, start, h, hle => by
    have hnext : ∀ {covered'}, covered' ≤ i →
        ∃ x ∈ p.occurrencesFrom (start + 1) covered' (some c) r,
          x = ⟨start + (i + 1), n, v⟩ ∨
            x.start < start + (i + 1) ∧ start + (i + 1) < x.start + x.length := by
      intro covered' hle'
      rw [Nat.add_comm i 1, ← Nat.add_assoc]
      exact exists_mem_occurrencesFrom (t := r) (start + 1) h hle'
    cases covered with
    | succ covered =>
      rw [occurrencesFrom_succ]
      exact hnext (Nat.le_of_succ_le_succ hle)
    | zero =>
      cases hp : p before (c :: r) with
      | none =>
        rw [occurrencesFrom_of_none hp]
        exact hnext (Nat.zero_le _)
      | some z =>
        rw [occurrencesFrom_of_some hp]
        by_cases hz : z.2 - 1 ≤ i
        · obtain ⟨x, hx, hor⟩ := hnext hz
          exact ⟨x, List.mem_cons_of_mem _ hx, hor⟩
        · exact ⟨_, List.mem_cons_self .., .inr ⟨by simp only; omega, by simp only; omega⟩⟩

/-- **What a search finds**: the places where the pattern reads and that no earlier
find goes on over. -/
theorem mem_occurrences_iff {t : Text} {x : Occurrence α} : x ∈ p.occurrences t ↔
    p.readAt none t x.start = some (x.value, x.length) ∧
      ∀ y ∈ p.occurrences t, y.start < x.start → y.start + y.length ≤ x.start := by
  constructor
  · intro hx
    obtain ⟨i, -, hs, hr⟩ := exists_of_mem_occurrencesFrom hx
    rw [Nat.zero_add] at hs
    exact ⟨by rw [hs, hr], fun y hy hlt => stop_le_of_start_lt hy hx hlt⟩
  · rintro ⟨hr, hbefore⟩
    obtain ⟨y, hy, rfl | ⟨hlt, hover⟩⟩ := exists_mem_occurrencesFrom 0 hr (Nat.zero_le _)
    · simpa [occurrences] using hy
    · have := hbefore y hy (by omega)
      omega

/-- Where the pattern reads something, a find begins or goes on. -/
theorem exists_mem_occurrences {t : Text} {i : Nat} {v : α} {n : Nat}
    (h : p.readAt none t i = some (v, n)) (hn : 0 < n) :
    ∃ x ∈ p.occurrences t, x.start ≤ i ∧ i < x.start + x.length := by
  obtain ⟨x, hx, hor⟩ := exists_mem_occurrencesFrom 0 h (Nat.zero_le _)
  rw [Nat.zero_add] at hor
  refine ⟨x, hx, ?_⟩
  rcases hor with rfl | ⟨hlt, hover⟩
  · exact ⟨Nat.le_refl _, Nat.lt_add_of_pos_right hn⟩
  · exact ⟨Nat.le_of_lt hlt, hover⟩

end Pattern
end Handout
