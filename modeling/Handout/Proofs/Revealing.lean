/-
# Which solutions a cutoff reveals

Two numbers are compared level by level, as far as both have one: a task is reached by a
cutoff if none of its levels is higher, and belongs to it if they are the same. So a task
belongs to a number exactly if each of the two is reached by the other (`belongs_iff`).
Whether the files of a task are rendered is decided by the one comparison, and which
variant a snippet shows by the other: a file that is rendered for the solutions of a task
shows one (`relevance_agrees_with_cutoff`).

The comparison is no order, since a missing level matches everything: `1.5` is reached by
`1`, and `1` by `1.2`, but `1.5` is not reached by `1.2`. A cutoff that reaches all that
another one reaches is missing, or has no more levels than the other and none that is lower
(`Later`, `reached_mono_iff`). If a cutoff gives way to such a one, every solution is shown
as it was (`later_cutoff_keeps_solutions`).

Key definition: `Later`.
Key theorems: `belongs_iff`, `reached_mono_iff`, `kind_ne_student_iff`,
`relevance_agrees_with_cutoff`, `later_cutoff_keeps_solutions`.
-/
import Handout.Proofs.Filling

namespace Handout

/-! ### Numbers level by level -/

theorem forall_mem_zip_iff {P : Nat → Nat → Prop} : ∀ {l m : List Nat},
    (∀ p ∈ l.zip m, P p.1 p.2) ↔ ∀ i x y : Nat, l[i]? = some x → m[i]? = some y → P x y
  | [], _ => by simp
  | _ :: _, [] => by simp
  | a :: l, b :: m => by
    rw [List.zip_cons_cons, List.forall_mem_cons, forall_mem_zip_iff]
    constructor
    · rintro ⟨h0, h⟩ i x y hx hy
      cases i with
      | zero =>
        cases hx
        cases hy
        exact h0
      | succ i => exact h i x y hx hy
    · exact fun h => ⟨h 0 a b rfl rfl, fun i x y hx hy => h (i + 1) x y hx hy⟩

namespace TaskNumber

theorem atOrBefore_iff {a b : TaskNumber} : a.atOrBefore b = true ↔
    ∀ i x y : Nat, a.levels[i]? = some x → b.levels[i]? = some y → x ≤ y := by
  rw [atOrBefore, List.all_eq_true, ← forall_mem_zip_iff]
  simp only [decide_eq_true_eq]

theorem within_iff {a b : TaskNumber} : a.within b = true ↔
    ∀ i x y : Nat, a.levels[i]? = some x → b.levels[i]? = some y → x = y := by
  rw [within, List.all_eq_true, ← forall_mem_zip_iff]
  simp only [beq_iff_eq]

/-- Levels agree if none of them is higher on either side. -/
theorem within_iff_atOrBefore {a b : TaskNumber} :
    a.within b = true ↔ a.atOrBefore b = true ∧ b.atOrBefore a = true := by
  rw [within_iff, atOrBefore_iff, atOrBefore_iff]
  constructor
  · intro h
    exact ⟨fun i x y hx hy => (h i x y hx hy).le, fun i x y hx hy => (h i y x hy hx).ge⟩
  · rintro ⟨h, h'⟩ i x y hx hy
    exact le_antisymm (h i x y hx hy) (h' i y x hy hx)

theorem atOrBefore_self (a : TaskNumber) : a.atOrBefore a = true := by
  rw [atOrBefore_iff]
  rintro i x y hx hy
  rw [hx, Option.some.injEq] at hy
  exact hy.le

end TaskNumber

/-- A task belongs to a number if each is reached by the other. -/
theorem belongs_iff (a b : Option TaskNumber) :
    belongs a b = true ↔ reached a b = true ∧ reached b a = true := by
  cases a with
  | none => cases b <;> simp [belongs, reached]
  | some a =>
    cases b with
    | none => simp [belongs, reached]
    | some b => exact TaskNumber.within_iff_atOrBefore

/-! ### Later cutoffs -/

/-- The second cutoff is missing, or it has no more levels than the first and none of them
is lower. -/
inductive Later : (earlier later : Option TaskNumber) → Prop
  | missing (c : Option TaskNumber) : Later c none
  | levels {c d : TaskNumber} (length : d.levels.length ≤ c.levels.length)
      (le : ∀ i x y : Nat, c.levels[i]? = some x → d.levels[i]? = some y → x ≤ y) :
      Later (some c) (some d)

theorem later_some_iff {c d : TaskNumber} : Later (some c) (some d) ↔
    d.levels.length ≤ c.levels.length ∧ c.atOrBefore d = true := by
  rw [TaskNumber.atOrBefore_iff]
  exact ⟨fun | .levels length le => ⟨length, le⟩, fun ⟨length, le⟩ => .levels length le⟩

instance : ∀ c d : Option TaskNumber, Decidable (Later c d)
  | c, none => .isTrue (.missing c)
  | none, some _ => .isFalse nofun
  | some _, some _ => decidable_of_iff _ later_some_iff.symm

/-- Every task that is reached by a cutoff is reached by a later one. -/
theorem Later.reached {c d task : Option TaskNumber} (h : Later c d)
    (hc : reached task c = true) : reached task d = true := by
  cases task with
  | none => cases d <;> rfl
  | some task =>
    cases h with
    | missing => rfl
    | @levels c d length le =>
      have hc : task.atOrBefore c = true := hc
      rw [TaskNumber.atOrBefore_iff] at hc
      refine TaskNumber.atOrBefore_iff.mpr fun i x z hx hz => ?_
      -- where the later cutoff has a level the earlier one has one, too
      obtain ⟨hi, -⟩ := List.getElem?_eq_some_iff.mp hz
      obtain ⟨y, hy⟩ : ∃ y, c.levels[i]? = some y :=
        ⟨_, List.getElem?_eq_getElem (hi.trans_le length)⟩
      exact (hc i x y hx hy).trans (le i y z hy hz)

/-- A cutoff with more levels misses a task that the other one reaches. -/
theorem exists_reached_of_length_lt {c d : TaskNumber}
    (h : c.levels.length < d.levels.length) :
    ∃ task : TaskNumber, task.atOrBefore c = true ∧ task.atOrBefore d = false := by
  cases c with
  | one a =>
    cases d with
    | one => simp [TaskNumber.levels] at h
    | two _ y => exact ⟨.two a (y + 1), by simp [TaskNumber.atOrBefore, TaskNumber.levels]⟩
    | three _ y => exact ⟨.two a (y + 1), by simp [TaskNumber.atOrBefore, TaskNumber.levels]⟩
  | two a b =>
    cases d with
    | one => simp [TaskNumber.levels] at h
    | two => simp [TaskNumber.levels] at h
    | three _ _ z =>
      exact ⟨.three a b (z + 1), by simp [TaskNumber.atOrBefore, TaskNumber.levels]⟩
  | three => cases d <;> simp [TaskNumber.levels] at h

/-- A cutoff misses a task whose first level is too high. -/
theorem exists_not_reached (d : TaskNumber) : ∃ task : TaskNumber, task.atOrBefore d = false := by
  cases d with
  | one a => exact ⟨.one (a + 1), by simp [TaskNumber.atOrBefore, TaskNumber.levels]⟩
  | two a => exact ⟨.one (a + 1), by simp [TaskNumber.atOrBefore, TaskNumber.levels]⟩
  | three a => exact ⟨.one (a + 1), by simp [TaskNumber.atOrBefore, TaskNumber.levels]⟩

/-- **Which cutoffs reach all that another one reaches**: the later ones, and no others. -/
theorem reached_mono_iff (c d : Option TaskNumber) :
    (∀ task, reached task c = true → reached task d = true) ↔ Later c d := by
  refine ⟨fun h => ?_, fun h task => h.reached⟩
  have hnot : ∀ {task d' : TaskNumber}, d = some d' → task.atOrBefore d' = false →
      ¬ reached (some task) c = true := fun hd hmiss hc => by
    have := h _ hc
    rw [hd, reached, hmiss] at this
    cases this
  cases d with
  | none => exact .missing c
  | some d =>
    cases c with
    | none =>
      obtain ⟨task, hmiss⟩ := exists_not_reached d
      exact absurd rfl (hnot rfl hmiss)
    | some c =>
      refine later_some_iff.mpr ⟨not_lt.mp fun hlt => ?_, h (some c) c.atOrBefore_self⟩
      obtain ⟨task, hc, hmiss⟩ := exists_reached_of_length_lt hlt
      exact hnot rfl hmiss hc

/-! ### What a snippet shows -/

/-- A snippet shows a solution if one is wanted and its task is reached. -/
theorem kind_ne_student_iff (o : Options) (s : Snippet) :
    (activationFor o s).kind ≠ .student ↔
      (o.mode.wantsSolution && reached s.task o.cutoff) = true := by
  unfold activationFor Activation.kind
  cases o.mode.wantsSolution && reached s.task o.cutoff with
  | false => simp
  | true => cases s.special.isSome && o.preferSpecial <;> simp

theorem kind_ne_student_iff_solution {k : Kind} : k ≠ .student ↔ k = .solution ∨ k = .special := by
  cases k <;> simp

/-- Which variant is shown depends on the cutoff only in so far as the task is reached. -/
theorem activationFor_of_reached {mode : Mode} {special : Bool} {c d : Option TaskNumber}
    {s : Snippet} (h : (mode.wantsSolution && reached s.task c) =
      (mode.wantsSolution && reached s.task d)) :
    activationFor ⟨mode, c, special⟩ s = activationFor ⟨mode, d, special⟩ s := by
  unfold activationFor
  simp only [h]

/-- The cutoff enters a rendering by what is shown and by nothing else. -/
theorem Snippet.render_of_activationFor {mode : Mode} {special : Bool} {c d : Option TaskNumber}
    {s : Snippet} (h : activationFor ⟨mode, c, special⟩ s = activationFor ⟨mode, d, special⟩ s) :
    s.render ⟨mode, c, special⟩ = s.render ⟨mode, d, special⟩ := by
  unfold render
  simp only [h]

/-! ### Rendered files and shown solutions -/

/-- A file that is rendered was read and has a rendering. -/
theorem transformFile_eq_true {host : Host} {o : Options} {dryRun : Bool} {source target : Path}
    {s s' : Session} (h : (transformFile host o dryRun source target).run.run s = (.ok true, s')) :
    ∃ content new, s.disk.readFile host.working source = .ok content ∧
      renderBytes o content = .ok (some new) := by
  rw [transformFile_eq] at h
  obtain ⟨disk, s₁, hdisk, h⟩ := Run.bind_eq_ok h
  cases hdisk
  obtain ⟨content, s₂, hread, h⟩ := Run.bind_eq_ok h
  obtain ⟨r, s₃, hrender, h⟩ := Run.bind_eq_ok h
  rw [Run.run_ofExcept, Prod.mk.injEq, mapError_eq_ok_iff] at hread hrender
  cases r with
  | none => cases h
  | some new => exact ⟨content, new, hread.1, hrender.1⟩

/-- **The two comparisons agree.** A task belongs to a number exactly if each is reached by
the other. So a file that is rendered for solutions, because it has a snippet of the
wanted task, has a snippet that shows its solution or special solution. -/
theorem relevance_agrees_with_cutoff :
    (∀ a b, belongs a b = true ↔ reached a b = true ∧ reached b a = true) ∧
      ∀ (host : Host) (o : Options) (dryRun : Bool) (source target : Path) (s s' : Session),
        o.mode = .solution →
        (transformFile host o dryRun source target).run.run s = (.ok true, s') →
        ∃ content t d, s.disk.readFile host.working source = .ok content ∧
          Utf8.decode content = .ok t ∧ Document.parse t = .ok d ∧
          ∃ x ∈ d.snippets, belongs x.task o.cutoff = true ∧
            ((activationFor o x).kind = .solution ∨ (activationFor o x).kind = .special) := by
  refine ⟨belongs_iff, fun host o dryRun source target s s' hmode h => ?_⟩
  obtain ⟨content, new, hread, hnew⟩ := transformFile_eq_true h
  obtain ⟨t, d, ht, hd, hshow, -⟩ := renderBytes_eq_ok hnew
  obtain ⟨x, hx, hbelongs⟩ := (nothingToShow_eq_false_iff.mp hshow).2 hmode
  refine ⟨content, t, d, hread, ht, hd, x, hx, hbelongs, ?_⟩
  rw [← kind_ne_student_iff_solution, kind_ne_student_iff, hmode]
  exact ((belongs_iff _ _).mp hbelongs).1

/-- A file with a snippet of the task `1.2` and one of the task `2`. -/
def laterTask : Disk :=
  .folder [("a.cs".toList, .file (Utf8.encode (String.toList <|
    "//<snippet task=\"1.2\">\n//<solution>\nx\n//</solution>\n//</snippet>\n"
    ++ "//<snippet task=\"2\">\n//<solution>\ny\n//</solution>\n//</snippet>")))]

/-- For the first task the file is rendered, and it shows a solution. -/
theorem relevance_agrees_with_cutoff_laterTask : ∃ s',
    (transformFile (.bare [] []) ⟨.solution, some (.one 1), true⟩ false
        ⟨.working, ["a.cs".toList]⟩ ⟨.working, ["b.cs".toList]⟩).run.run ⟨laterTask, none, []⟩ =
      (.ok true, s') ∧
    ∃ content t d, laterTask.readFile [] ⟨.working, ["a.cs".toList]⟩ = .ok content ∧
      Utf8.decode content = .ok t ∧ Document.parse t = .ok d ∧
      ∃ x ∈ d.snippets, belongs x.task (some (.one 1)) = true ∧
        ((activationFor ⟨.solution, some (.one 1), true⟩ x).kind = .solution ∨
          (activationFor ⟨.solution, some (.one 1), true⟩ x).kind = .special) := by
  have hanswer : (match ((transformFile (.bare [] []) ⟨.solution, some (.one 1), true⟩ false
        ⟨.working, ["a.cs".toList]⟩ ⟨.working, ["b.cs".toList]⟩).run.run
          ⟨laterTask, none, []⟩).1 with
      | .ok rendered => rendered
      | .error _ => false) = true := by decide +kernel
  generalize hrun : (transformFile (.bare [] []) ⟨.solution, some (.one 1), true⟩ false
    ⟨.working, ["a.cs".toList]⟩ ⟨.working, ["b.cs".toList]⟩).run.run ⟨laterTask, none, []⟩ = out
    at hanswer ⊢
  rcases out with ⟨e | rendered, s'⟩
  · cases hanswer
  · obtain rfl : rendered = true := hanswer
    exact ⟨s', rfl, relevance_agrees_with_cutoff.2 (.bare [] [])
      ⟨.solution, some (.one 1), true⟩ false ⟨.working, ["a.cs".toList]⟩
      ⟨.working, ["b.cs".toList]⟩ ⟨laterTask, none, []⟩ s' rfl hrun⟩

/-- **A later cutoff takes no solution back.** A snippet that shows its solution or special
solution under a cutoff shows it in the same way under every later one. So what changes in
a document are snippets that showed the variant for students, and they show a solution
instead. -/
theorem later_cutoff_keeps_solutions (d : Document) (mode : Mode) (special : Bool)
    (earlier later : Option TaskNumber) (h : Later earlier later) :
    (∀ s ∈ d.snippets, ((activationFor ⟨mode, earlier, special⟩ s).kind = .solution ∨
        (activationFor ⟨mode, earlier, special⟩ s).kind = .special) →
      (activationFor ⟨mode, later, special⟩ s).kind =
          (activationFor ⟨mode, earlier, special⟩ s).kind ∧
        s.render ⟨mode, later, special⟩ = s.render ⟨mode, earlier, special⟩) ∧
    ∀ p ∈ d.pieces,
      p.render ⟨mode, later, special⟩ d.source ≠ p.render ⟨mode, earlier, special⟩ d.source →
      ∃ s, p = .snippet s ∧ (activationFor ⟨mode, earlier, special⟩ s).kind = .student ∧
        (activationFor ⟨mode, later, special⟩ s).kind ≠ .student := by
  refine ⟨fun s _ hs => ?_, fun p _ hp => ?_⟩
  · rw [← kind_ne_student_iff_solution, kind_ne_student_iff, Bool.and_eq_true] at hs
    have hsame : activationFor ⟨mode, later, special⟩ s =
        activationFor ⟨mode, earlier, special⟩ s :=
      activationFor_of_reached (by rw [hs.2, h.reached hs.2])
    exact ⟨by rw [hsame], Snippet.render_of_activationFor hsame⟩
  · cases p with
    | text span => exact absurd rfl hp
    | snippet s =>
      have hne : (mode.wantsSolution && reached s.task later) ≠
          (mode.wantsSolution && reached s.task earlier) := fun hsame =>
        hp (Snippet.render_of_activationFor (activationFor_of_reached hsame))
      have hearlier : (mode.wantsSolution && reached s.task earlier) = false := by
        by_contra htrue
        rw [Bool.not_eq_false, Bool.and_eq_true] at htrue
        exact hne (by rw [htrue.2, h.reached htrue.2])
      refine ⟨s, rfl, not_not.mp fun hk => ?_, (kind_ne_student_iff _ s).mpr ?_⟩
      · have htrue := (kind_ne_student_iff ⟨mode, earlier, special⟩ s).mp hk
        rw [hearlier] at htrue
        cases htrue
      · rw [hearlier, Bool.ne_false_iff] at hne
        exact hne

/-- A snippet of the task `1.2` and one of the task `2.1`. -/
def twoSnippets : List Snippet :=
  [⟨[], some (.two 1 2), some ⟨["//a".toList], false⟩, some ⟨["b".toList], true⟩, none⟩,
    ⟨[], some (.two 2 1), some ⟨["c".toList], true⟩, some ⟨["//d".toList], false⟩, none⟩]

/-- The first snippet keeps its solution when the cutoff `1.3` gives way to `2`, and the
second one, which showed its variant for students, changes. -/
theorem later_cutoff_keeps_solutions_twoSnippets :
    let d : Document := ⟨[], twoSnippets.map .snippet⟩
    let o : Options := ⟨.solution, some (.two 1 3), false⟩
    let o' : Options := ⟨.solution, some (.one 2), false⟩
    Later o.cutoff o'.cutoff ∧ d.render o = .ok "bc".toList ∧ d.render o' = .ok "bd".toList ∧
      (∃ s ∈ twoSnippets, (activationFor o s).kind = .solution ∧ s.render o' = s.render o) ∧
      ∃ s ∈ twoSnippets, s.render o' ≠ s.render o ∧ (activationFor o s).kind = .student := by
  intro d o o'
  have hlater : Later o.cutoff o'.cutoff := by decide
  obtain ⟨hkeeps, hchanges⟩ :=
    later_cutoff_keeps_solutions d .solution false o.cutoff o'.cutoff hlater
  refine ⟨hlater, rfl, rfl, ?_, ?_⟩
  · exact ⟨_, List.mem_cons_self .., rfl, (hkeeps _ (List.mem_cons_self ..) (.inl rfl)).2⟩
  · have hne : (twoSnippets.getLast (by decide)).render o' ≠
        (twoSnippets.getLast (by decide)).render o := by decide +kernel
    obtain ⟨s, hs, hstudent, -⟩ := hchanges (.snippet (twoSnippets.getLast (by decide)))
      (List.mem_map.mpr ⟨_, List.getLast_mem _, rfl⟩) hne
    cases hs
    exact ⟨_, List.getLast_mem _, hne, hstudent⟩

end Handout
