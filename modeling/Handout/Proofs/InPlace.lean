/-
# Rewriting a folder in place

When the markup is kept, the files of a folder are rewritten where they are. A visit
reads a file, renders it completely and only then writes it (`run_visitFile_inPlace`),
so it changes one file or nothing. The walk stops at the first file that cannot be
rendered: those before it, in ascending order, have been rewritten if they were due, and
it and all later ones are as they were (`visitFiles_inPlace`).

The files are listed before the snapshot is taken, and the snapshot leaves the source as
it was, so the walk meets the contents that the run began with. Besides the files that
are due a run changes nothing but the place of its snapshot
(`transformFolder_inPlace`).

Key definitions: `rewriting`, `HasSnippet`, `RendersTo`, `WalkedInPlace`, `IsDue`,
`RewritesDue`.
Key theorems: `run_visitFile_inPlace`, `visitFiles_inPlace`, `transformFolder_inPlace`.
-/
import Handout.Proofs.Copying
import Handout.Proofs.Reading
import Handout.Proofs.Running

namespace Handout

open Entry

variable {host : Host} {q : Request} {source : Location} {root : Path}

/-! ### What becomes of a content -/

/-- What a visit makes of the content of a file: an error, nothing, or a new content. -/
def rewriting (q : Request) (file : Location) (content : Bytes) :
    Except ContentError (Option Bytes) :=
  if q.extensions.contains (suffixOf file.name) then renderBytes q.options content else .ok none

/-- The content is a text that is read as a document with a snippet. -/
def HasSnippet (content : Bytes) : Prop :=
  ∃ t d, Utf8.decode content = .ok t ∧ Document.parse t = .ok d ∧ d.snippets ≠ []

/-- The new content encodes the rendering of the document that the content is read as. -/
def RendersTo (o : Options) (content new : Bytes) : Prop :=
  ∃ t d out, Utf8.decode content = .ok t ∧ Document.parse t = .ok d ∧ d.render o = .ok out ∧
    new = Utf8.encode out

theorem mapError_eq_ok_iff {ε δ α : Type} {x : Except ε α} {f : ε → δ} {a : α} :
    x.mapError f = .ok a ↔ x = .ok a := by
  cases x <;> simp [Except.mapError]

/-- No snippet of a document matters for the options. -/
def NothingToShow (o : Options) (d : Document) : Bool :=
  d.snippets.isEmpty || (o.mode = .solution && d.countFor o.cutoff = 0)

theorem renderBytes_eq_ok {o : Options} {content : Bytes} {r : Option Bytes}
    (h : renderBytes o content = .ok r) :
    ∃ t d, Utf8.decode content = .ok t ∧ Document.parse t = .ok d ∧
      match r with
      | none => NothingToShow o d = true
      | some new => NothingToShow o d = false ∧
          ∃ out, d.render o = .ok out ∧ new = Utf8.encode out := by
  unfold renderBytes at h
  simp only [bind_eq_ok_iff, mapError_eq_ok_iff] at h
  obtain ⟨t, ht, d, hd, h⟩ := h
  refine ⟨t, d, ht, hd, ?_⟩
  split_ifs at h with hnone
  · cases h
    exact hnone
  · obtain ⟨out, hout, hr⟩ := bind_eq_ok_iff.mp h
    cases hr
    rw [mapError_eq_ok_iff] at hout
    exact ⟨by simpa [NothingToShow] using hnone, out, hout, rfl⟩

theorem renderBytes_eq_some {o : Options} {content new : Bytes}
    (h : renderBytes o content = .ok (some new)) :
    HasSnippet content ∧ RendersTo o content new := by
  obtain ⟨t, d, ht, hd, hs, out, hout, hnew⟩ := renderBytes_eq_ok h
  refine ⟨⟨t, d, ht, hd, fun h0 => ?_⟩, t, d, out, ht, hd, hout, hnew⟩
  rw [NothingToShow, h0] at hs
  cases hs

/-- When the markup is kept, only a file without snippets is not rendered. -/
theorem renderBytes_eq_none {o : Options} (hm : o.mode.keepsMarkup = true) {content : Bytes}
    (h : renderBytes o content = .ok none) : ¬ HasSnippet content := by
  obtain ⟨t, d, ht, hd, hnone⟩ := renderBytes_eq_ok h
  have hmode : o.mode ≠ .solution := by
    intro he
    rw [he] at hm
    cases hm
  rintro ⟨t', d', ht', hd', hs'⟩
  obtain rfl : t = t' := by simpa [ht] using ht'
  obtain rfl : d = d' := by simpa [hd] using hd'
  simp only [NothingToShow, hmode, decide_false, Bool.false_and, Bool.or_false,
    List.isEmpty_iff] at hnone
  exact hs' hnone

/-! ### One visit -/

/-- A file that is rendered onto itself changes only if it is rendered. -/
theorem run_transformFile_inPlace {o : Options} {p : Path} {s : Session} {content : Bytes}
    (hup : upName ∉ p.names) (h : s.disk.look (p.resolve host.working) = some (.file content))
    (habove : s.disk.look (p.parent.resolve host.working) = some .folder) :
    (transformFile host o false p p).run.run s = match renderBytes o content with
      | .error e => (.error e, s)
      | .ok none => (.ok false, s)
      | .ok (some new) =>
        (.ok true, { s with disk := put (.file new) s.disk (p.resolve host.working) }) := by
  have hupAbove : upName ∉ p.parent.names := fun hm => hup (List.mem_of_mem_dropLast hm)
  rw [transformFile_eq, Run.run_bind, Run.run_disk]
  simp only
  rw [Run.run_bind, Run.run_ofExcept, Disk.readFile_of_look hup h]
  simp only [Except.mapError]
  rw [Run.run_bind, Run.run_ofExcept]
  cases hr : renderBytes o content with
  | error e => rfl
  | ok r =>
    cases r with
    | none => rfl
    | some new =>
      show (writeOutput host p new >>= fun _ => pure true : Run ContentError Bool).run.run s = _
      rw [Run.run_bind, writeOutput, Run.run_bind, Run.run_act,
        Disk.makeFolders_of_look hupAbove habove]
      simp only [Except.mapError]
      rw [Run.run_change, Disk.writeFile_of_look hup h]
      rfl

/-- **A visit in place** changes the file if it is rendered, and nothing otherwise. -/
theorem run_visitFile_inPlace (hdry : q.dryRun = false) {f : Location} (hf : f ≠ [])
    (hup : upName ∉ source ++ f) {s : Session} {content : Bytes}
    (h : s.disk.look (source ++ f) = some (.file content)) :
    (visitFile host q source none f).run.run s = match rewriting q f content with
      | .error e => (.error (.content (Path.ofLocation (source ++ f)).text e), s)
      | .ok none => (.ok .skipped, s)
      | .ok (some new) => (.ok .transformed, { s with
          disk := put (.file new) s.disk (source ++ f)
          log := s.log ++ [.transformed (Path.ofLocation (source ++ f)).text] }) := by
  have hp : (Path.ofLocation (source ++ f)).resolve host.working = source ++ f :=
    Path.resolve_ofLocation hup host.working
  have habove : s.disk.look ((Path.ofLocation (source ++ f)).parent.resolve host.working) =
      some .folder := by
    rw [Path.resolve_parent hup]
    show s.disk.look (source ++ f).dropLast = _
    rw [List.dropLast_append_of_ne_nil hf]
    refine look_above (List.cons_ne_nil (f.getLast hf) []) ?_
    rw [List.append_assoc, List.dropLast_append_getLast, h]
    exact Option.some_ne_none _
  have hrender := run_transformFile_inPlace (o := q.options) hup (hp ▸ h) habove
  have hstart : startVisit host q none (.ofLocation (source ++ f)) = pure () := rfl
  rw [visitFile_eq, Run.run_bind, Option.getD_none, hstart, Run.run_pure]
  simp only
  rw [Run.run_bind]
  unfold renderVisit rewriting
  split_ifs
  · rw [Run.run_adapt, hdry, hrender, hp]
    cases hr : renderBytes q.options content with
    | error e => rfl
    | ok r => cases r <;> rfl
  · rfl

/-! ### The walk -/

/-- The visited files hold what was made of their contents, and nothing else has changed. -/
structure Rewrote (q : Request) (source : Location) (visited : List Location)
    (before after : Disk) : Prop where
  look_visited : ∀ f ∈ visited, ∀ content, before.look (source ++ f) = some (.file content) →
    ∃ r, rewriting q f content = .ok r ∧ after.look (source ++ f) = some (.file (r.getD content))
  look_other : ∀ p, (∀ f ∈ visited, p ≠ source ++ f) → after.look p = before.look p

theorem Rewrote.nil (disk : Disk) : Rewrote q source [] disk disk :=
  ⟨by simp, fun _ _ => rfl⟩

/-- A visit and then a walk over other files. -/
theorem Rewrote.cons {f : Location} {visited : List Location} {before between after : Disk}
    {content : Bytes} {r : Option Bytes} (hr : rewriting q f content = .ok r)
    (hbefore : before.look (source ++ f) = some (.file content))
    (hbetween : ∀ p, between.look p =
      if p = source ++ f then some (.file (r.getD content)) else before.look p)
    (hnew : f ∉ visited) (h : Rewrote q source visited between after) :
    Rewrote q source (f :: visited) before after := by
  have hne : ∀ g ∈ visited, source ++ f ≠ source ++ g := by
    intro g hg he
    rw [List.append_cancel_left_eq] at he
    exact hnew (he ▸ hg)
  refine ⟨fun g hg content' hcontent => ?_, fun p hp => ?_⟩
  · rcases List.mem_cons.mp hg with he | hg
    · rw [he] at hcontent ⊢
      obtain rfl : content = content' := by simpa [hbefore] using hcontent
      exact ⟨r, hr, by rw [h.look_other _ hne, hbetween, if_pos rfl]⟩
    · exact h.look_visited g hg content' (by rw [hbetween, if_neg (hne g hg).symm, hcontent])
  · rw [h.look_other p fun g hg => hp g (List.mem_cons_of_mem _ hg), hbetween,
      if_neg (hp f (List.mem_cons_self ..))]

/-- What a walk in place comes to: the files have all been visited, or it stopped at the
first that cannot be rendered. -/
def WalkedInPlace (q : Request) (source : Location) (files : List Location) (before : Disk) :
    Except RunError Report × Session → Prop
  | (.ok _, s') => Rewrote q source files before s'.disk
  | (.error e, s') => ∃ done f rest content cause, files = done ++ f :: rest ∧
      before.look (source ++ f) = some (.file content) ∧ rewriting q f content = .error cause ∧
      e = .content (Path.ofLocation (source ++ f)).text cause ∧
      Rewrote q source done before s'.disk

theorem WalkedInPlace.cons {f : Location} {rest : List Location} {before between : Disk}
    {out : Except RunError Report × Session} {content : Bytes} {r : Option Bytes}
    (hr : rewriting q f content = .ok r)
    (hbefore : before.look (source ++ f) = some (.file content))
    (hbetween : ∀ p, between.look p =
      if p = source ++ f then some (.file (r.getD content)) else before.look p)
    (hnew : f ∉ rest) (h : WalkedInPlace q source rest between out) :
    WalkedInPlace q source (f :: rest) before out := by
  rcases out with ⟨_ | _, s'⟩
  · obtain ⟨done, g, rest', c, cause, rfl, hc, herr, he, hdone⟩ := h
    have hne : source ++ g ≠ source ++ f := by
      intro heq
      rw [List.append_cancel_left_eq] at heq
      exact hnew (heq ▸ by simp)
    rw [hbetween, if_neg hne] at hc
    exact ⟨f :: done, g, rest', c, cause, rfl, hc, herr, he,
      .cons hr hbefore hbetween (fun hm => hnew (List.mem_append_left _ hm)) hdone⟩
  · exact Rewrote.cons hr hbefore hbetween hnew h

/-- **A walk in place rewrites a front part of the files.** -/
theorem visitFiles_inPlace (host : Host) (source : Location) (hdry : q.dryRun = false) :
    ∀ {files : List Location} {s : Session} (report : Report), files.Nodup →
      (∀ f ∈ files, f ≠ [] ∧ upName ∉ source ++ f ∧
        ∃ content, s.disk.look (source ++ f) = some (.file content)) →
    WalkedInPlace q source files s.disk
      ((visitFiles host q source none files report).run.run s)
  | [], s, _, _, _ => Rewrote.nil s.disk
  | f :: rest, s, report, hnodup, hfiles => by
    obtain ⟨hf, hrest⟩ := List.nodup_cons.mp hnodup
    obtain ⟨h0, hup, content, hlook⟩ := hfiles f (List.mem_cons_self ..)
    rw [visitFiles, Run.run_bind, run_visitFile_inPlace hdry h0 hup hlook]
    -- the walk over the rest, from the session that a visit leaves
    have hgo : ∀ (r : Option Bytes) (s₁ : Session) (report : Report),
        rewriting q f content = .ok r →
        (∀ p, s₁.disk.look p =
          if p = source ++ f then some (.file (r.getD content)) else s.disk.look p) →
        WalkedInPlace q source (f :: rest) s.disk
          ((visitFiles host q source none rest report).run.run s₁) := by
      intro r s₁ report hr hs₁
      refine .cons hr hlook hs₁ hf (visitFiles_inPlace host source hdry report hrest ?_)
      intro g hg
      obtain ⟨g0, gup, c, hc⟩ := hfiles g (List.mem_cons_of_mem _ hg)
      have hne : source ++ g ≠ source ++ f := fun he => hf (List.append_cancel_left he ▸ hg)
      exact ⟨g0, gup, c, by rw [hs₁, if_neg hne, hc]⟩
    cases hr : rewriting q f content with
    | error cause => exact ⟨[], f, rest, content, cause, rfl, hlook, hr, rfl, .nil s.disk⟩
    | ok r =>
      cases r with
      | none =>
        refine hgo none s _ hr fun p => ?_
        split_ifs with hp
        · rw [hp, hlook]
          rfl
        · rfl
      | some new => exact hgo (some new) _ _ hr fun p => look_putFile hlook new p

/-! ### The whole run -/

/-- A run rewrites this file: its suffix is wanted, and its content has a snippet. -/
def IsDue (q : Request) (source : Location) (disk : Disk) (file : Location) : Prop :=
  q.extensions.contains (suffixOf file.name) = true ∧
    ∃ content, disk.look (source ++ file) = some (.file content) ∧ HasSnippet content

/-- Of the visited files those that are due hold their rendering, and all else below the
source is as it was. -/
structure RewritesDue (q : Request) (source : Location) (visited : Location → Prop)
    (before after : Disk) : Prop where
  look_due : ∀ f, visited f → IsDue q source before f → ∃ content new,
    before.look (source ++ f) = some (.file content) ∧ RendersTo q.options content new ∧
      after.look (source ++ f) = some (.file new)
  look_rest : ∀ r, ¬ (visited r ∧ IsDue q source before r) →
    after.look (source ++ r) = before.look (source ++ r)

theorem Rewrote.rewritesDue {files : List Location} {before after : Disk}
    (h : Rewrote q source files before after) (hm : q.options.mode.keepsMarkup = true)
    (hfiles : ∀ f ∈ files, ∃ content, before.look (source ++ f) = some (.file content))
    {visited : Location → Prop} (hvisited : ∀ f content,
      before.look (source ++ f) = some (.file content) → (visited f ↔ f ∈ files)) :
    RewritesDue q source visited before after := by
  refine ⟨fun f hf ⟨hsuffix, content, hlook, hsnippet⟩ => ?_, fun r hr => ?_⟩
  · obtain ⟨new, hnew, hafter⟩ := h.look_visited f ((hvisited f content hlook).mp hf) content hlook
    rw [rewriting, if_pos hsuffix] at hnew
    cases new with
    | none => exact absurd hsnippet (renderBytes_eq_none hm hnew)
    | some new => exact ⟨content, new, hlook, (renderBytes_eq_some hnew).2, hafter⟩
  · by_cases hmem : r ∈ files
    · obtain ⟨content, hlook⟩ := hfiles r hmem
      obtain ⟨new, hnew, hafter⟩ := h.look_visited r hmem content hlook
      cases new with
      | none => rw [hafter, hlook]; rfl
      | some new =>
        have hsuffix : q.extensions.contains (suffixOf r.name) = true := by
          by_contra hs
          rw [rewriting, if_neg hs] at hnew
          cases hnew
        rw [rewriting, if_pos hsuffix] at hnew
        exact absurd ⟨(hvisited r content hlook).mpr hmem, hsuffix, content, hlook,
          (renderBytes_eq_some hnew).1⟩ hr
    · refine h.look_other _ fun f hf he => hmem ?_
      rw [List.append_cancel_left_eq] at he
      exact he ▸ hf

theorem RewritesDue.of_look {visited : Location → Prop} {before before' after : Disk}
    (hlook : ∀ r, before'.look (source ++ r) = before.look (source ++ r))
    (h : RewritesDue q source visited before' after) :
    RewritesDue q source visited before after := by
  have hdue : ∀ f, IsDue q source before' f ↔ IsDue q source before f := by
    intro f
    simp only [IsDue, hlook]
  refine ⟨fun f hf hd => ?_, fun r hr => ?_⟩
  · rw [← hlook]
    exact h.look_due f hf ((hdue f).mpr hd)
  · rw [← hlook]
    exact h.look_rest r fun hd => hr ⟨hd.1, (hdue r).mp hd.2⟩

/-- Outside the source nothing has changed, except, if the source was not backed up last,
at the place of its snapshot and for new folders on the way there. -/
def KeepsOutside (host : Host) (root : Path) (source : Location) (s : Session) (after : Disk) :
    Prop :=
  ∀ p, ¬ source <+: p → after.look p = s.disk.look p ∨ (s.last ≠ some source ∧
    (snapshotLocation host root source <+: p ∨
      (p <+: root.resolve host.working ∧ s.disk.look p = none ∧ after.look p = some .folder)))

/-- What a run has done to the disk when some of the files are visited. -/
structure RunsInPlace (host : Host) (root : Path) (q : Request) (source : Location)
    (visited : Location → Prop) (s : Session) (after : Disk) : Prop where
  rewritesDue : RewritesDue q source visited s.disk after
  keepsOutside : KeepsOutside host root source s after

/-- A walk after a preparation that left the source as it was. -/
theorem Rewrote.runsInPlace {done : List Location} {visited : Location → Prop} {s : Session}
    {between after : Disk} (h : Rewrote q source done between after)
    (hm : q.options.mode.keepsMarkup = true)
    (hlook : ∀ r, between.look (source ++ r) = s.disk.look (source ++ r))
    (hout : KeepsOutside host root source s between)
    (hdone : ∀ f ∈ done, ∃ content, s.disk.look (source ++ f) = some (.file content))
    (hvisited : ∀ f content, s.disk.look (source ++ f) = some (.file content) →
      (visited f ↔ f ∈ done)) : RunsInPlace host root q source visited s after := by
  simp only [← hlook] at hdone hvisited
  refine ⟨(h.rewritesDue hm hdone hvisited).of_look hlook, fun p hp => ?_⟩
  rw [h.look_other p fun f _ he => hp ⟨f, he.symm⟩]
  exact hout p hp

/-- A run whose snapshot is skipped or completed walks over the files that it listed. -/
theorem exists_prepared {s : Session} {entries : List (Text × Entry)} (hs : source.Proper)
    (hup : upName ∉ root.names) (htilde : root.expandHome host.homeOf = some root)
    (hm : q.options.mode.keepsMarkup = true) (hf : folderOf host q.folder = .ok source)
    (he : s.disk.find? source = some (.folder entries)) :
    (∃ e s', (transformFolder host root q).run.run s = (.error (.snapshot e), s')) ∨
      ∃ report s₁, (∀ r, s₁.disk.look (source ++ r) = s.disk.look (source ++ r)) ∧
        KeepsOutside host root source s s₁.disk ∧
        ((transformFolder host root q).run.run s).1 =
          ((visitFiles host q source none (folder entries).files report).run.run s₁).1 ∧
        ((transformFolder host root q).run.run s).2.disk =
          ((visitFiles host q source none (folder entries).files report).run.run s₁).2.disk := by
  have ht : targetOf host q source = .ok none := if_pos hm
  rcases preparation_inPlace_cases host root q source s with
    ⟨-, hp⟩ | ⟨hlast, s', ⟨e, -, hp⟩ | ⟨place, hsnap, hp⟩⟩
  · exact .inr ⟨_, s, fun _ => rfl, fun _ _ => .inl rfl,
      run_transformFolder_prepared hf he ht hp⟩
  · exact .inl ⟨e, s', by rw [run_transformFolder hf he ht, hp]⟩
  · have hcopied := copied_of_snapshot hsnap hs hup htilde
    refine .inr ⟨_, { s' with last := some source }, hcopied.look_source hs, fun p _ => ?_,
      run_transformFolder_prepared hf he ht hp⟩
    by_cases hplace : snapshotLocation host root source <+: p
    · exact .inr ⟨hlast, .inl hplace⟩
    · exact (hcopied.look_other p hplace).imp_right fun h => ⟨hlast, .inr h⟩

/-- **A run in place rewrites the files that are due, in ascending order, and nothing
else.** If it answers, all of them hold their rendering. If it stops at a file, those
before it do, and it and all later ones are as they were. There is no other failure than
that the folder is missing or that the snapshot failed. -/
theorem transformFolder_inPlace (host : Host) (root : Path) (q : Request) (source : Location)
    (s : Session) (hdisk : s.disk.Proper) (hup : upName ∉ root.names)
    (htilde : root.expandHome host.homeOf = some root) (hm : q.options.mode.keepsMarkup = true)
    (hdry : q.dryRun = false) (hf : folderOf host q.folder = .ok source) :
    match (transformFolder host root q).run.run s with
    | (.ok _, s') => RunsInPlace host root q source (fun _ => True) s s'.disk
    | (.error (.content path cause), s') => ∃ f content,
        s.disk.look (source ++ f) = some (.file content) ∧
        path = (Path.ofLocation (source ++ f)).text ∧
        q.extensions.contains (suffixOf f.name) = true ∧
        renderBytes q.options content = .error cause ∧
        RunsInPlace host root q source (· < f) s s'.disk
    | (.error e, _) => e = .missingFolder q.folder ∨ ∃ x, e = .snapshot x := by
  by_cases hfind : ∃ entries, s.disk.find? source = some (.folder entries)
  · obtain ⟨entries, hfind⟩ := hfind
    have hs : source.Proper := hdisk source (by simp [look, hfind])
    have hfiles : ∀ f, f ∈ (folder entries).files ↔
        ∃ content, s.disk.look (source ++ f) = some (.file content) :=
      fun f => mem_files_iff_below hfind
    rcases exists_prepared hs hup htilde hm hf hfind with
      ⟨e, s', hr⟩ | ⟨report, s₁, hlook, hout, h1, h2⟩
    · rw [hr]
      exact .inr ⟨e, rfl⟩
    · have hwalk := visitFiles_inPlace host source hdry (s := s₁) report
        ((files_sorted (folder entries)).imp ne_of_lt) fun f hf => by
          obtain ⟨content, hcontent⟩ := (hfiles f).mp hf
          exact ⟨ne_nil_of_mem_files hf, (hdisk.of_mem_files hfind hf).no_up, content,
            by rw [hlook, hcontent]⟩
      generalize (visitFiles host q source none (folder entries).files report).run.run s₁ =
        walked at h1 h2 hwalk
      generalize (transformFolder host root q).run.run s = out at h1 h2
      rcases out with ⟨r, s'⟩
      rcases walked with ⟨_, s''⟩
      subst h1
      dsimp only at h2
      cases r with
      | ok report' =>
        have hwalk : Rewrote q source (folder entries).files s₁.disk s''.disk := hwalk
        rw [← h2] at hwalk
        exact hwalk.runsInPlace hm hlook hout (fun f hf => (hfiles f).mp hf) fun f c hc =>
          ⟨fun _ => (hfiles f).mpr ⟨c, hc⟩, fun _ => trivial⟩
      | error e =>
        obtain ⟨done, f, rest, content, cause, hsplit, hcontent, hcause, rfl, hwalk⟩ := hwalk
        rw [← h2] at hwalk
        have hsuffix : q.extensions.contains (suffixOf f.name) = true := by
          by_contra hn
          rw [rewriting, if_neg hn] at hcause
          cases hcause
        rw [rewriting, if_pos hsuffix] at hcause
        have hsorted := files_sorted (folder entries)
        rw [hsplit] at hsorted hfiles
        refine ⟨f, content, by rw [← hlook, hcontent], rfl, hsuffix, hcause,
          hwalk.runsInPlace hm hlook hout (fun g hg => ?_) fun g c hc => ?_⟩
        · exact (hfiles g).mp (List.mem_append_left _ hg)
        · exact lt_iff_mem_front hsorted ((hfiles g).mpr ⟨c, hc⟩)
  · rw [run_transformFolder_missing hf (not_exists.mp hfind)]
    exact .inl rfl

/-- A folder `w/src` with a file that has a snippet and one that cannot be read. -/
def twoFiles : Disk :=
  .folder [("w".toList, .folder [("src".toList, .folder [
    ("a.cs".toList,
      .file (Utf8.encode "//<snippet>\n//<student>\n//s\n//</student>\n//</snippet>".toList)),
    ("b.cs".toList, .file (Utf8.encode "//<snippet>".toList))])])]

/-- Asks for the student text in place. -/
def studentInPlace : Request :=
  ⟨"w/src".toList, none, [".cs".toList], ⟨.fullStudent, none, false⟩, false, false⟩

/-- The run stops at the second file, so the first holds its rendering. -/
theorem transformFolder_inPlace_twoFiles :
    twoFiles.Proper ∧ folderOf (.bare [] []) studentInPlace.folder =
        .ok ["w".toList, "src".toList] ∧
      ∃ f content, twoFiles.look (["w".toList, "src".toList] ++ f) = some (.file content) ∧
        "/w/src/b.cs".toList = (Path.ofLocation (["w".toList, "src".toList] ++ f)).text ∧
        RunsInPlace (.bare [] []) ⟨.working, ["bk".toList]⟩ studentInPlace
          ["w".toList, "src".toList] (· < f) ⟨twoFiles, none, []⟩
          (afterRun (.bare [] []) ⟨.working, ["bk".toList]⟩ studentInPlace
            ⟨twoFiles, none, []⟩).disk := by
  have hdisk : twoFiles.Proper := proper_of_contents (by unfold Location.Proper; decide +kernel)
  have hfolder : folderOf (.bare [] []) studentInPlace.folder =
    .ok ["w".toList, "src".toList] := by rfl
  have hstop : (match ((transformFolder (.bare [] []) ⟨.working, ["bk".toList]⟩
        studentInPlace).run.run ⟨twoFiles, none, []⟩).1 with
      | .error (.content path _) => decide (path = "/w/src/b.cs".toList)
      | .error _ => false
      | .ok _ => false) = true := by decide +kernel
  refine ⟨hdisk, hfolder, ?_⟩
  -- the session is kept opaque, or the run would be evaluated to state what is known of it
  obtain ⟨s, hs, hlook⟩ : ∃ s : Session, s = ⟨twoFiles, none, []⟩ ∧ s.disk = twoFiles :=
    ⟨_, rfl, rfl⟩
  rw [← hs] at hstop ⊢
  rw [← hlook] at hdisk ⊢
  have h := transformFolder_inPlace (.bare [] []) ⟨.working, ["bk".toList]⟩ studentInPlace
    ["w".toList, "src".toList] s hdisk (by decide) rfl rfl rfl hfolder
  unfold afterRun
  generalize (transformFolder (.bare [] []) ⟨.working, ["bk".toList]⟩ studentInPlace).run.run
    s = out at h hstop ⊢
  rcases out with ⟨r, s'⟩
  dsimp only at hstop
  split at hstop
  · rw [decide_eq_true_eq] at hstop
    obtain ⟨f, content, hcontent, hpath, -, -, hruns⟩ := h
    exact ⟨f, content, hcontent, hstop ▸ hpath, hruns⟩
  · cases hstop
  · cases hstop

end Handout
