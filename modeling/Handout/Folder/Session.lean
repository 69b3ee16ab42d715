/-
# Sessions

A run acts on a session: the disk, the folder that was last backed up, and a
log of what was done. A run that fails leaves behind the session that it had
reached.

It takes place on a host, which knows what the disk does not tell.

Key definitions: `Host`, `Event`, `Session`, `Run`.
Key theorems: `Run.run_bind`, `Run.run_change`, `Run.run_act`, `Run.bind_eq_ok`.
-/
import Handout.Files.Disk

namespace Handout

/-- Where a run takes place. -/
structure Host where
  /-- The working folder. -/
  working : Location
  /-- The home folder of the user. -/
  home : Location
  /-- The home folders of the accounts, by their names. -/
  accountHome : Text → Option Location := fun _ => none
  /-- The folder of the settings, if the environment names one. -/
  configFolder : Option Text := none
  /-- The folder of the backups, if the environment names one. -/
  backupFolder : Option Text := none
  /-- What is left of a copy of a folder to a place deep inside itself. This depends on the
  limits of the machine and on the order in which entries are listed. -/
  brokenCopy : Disk → Location → Location → Disk.BrokenCopy :=
    fun _ _ _ => ⟨true, "maximum recursion depth exceeded".toList, []⟩

/-- A host that knows two folders only. -/
def Host.bare (working home : Location) : Host where
  working
  home

/-- The home folder of an account; the user's own has the empty name. -/
def Host.homeOf (host : Host) : Text → Option Location
  | [] => some host.home
  | account => host.accountHome account

/-- Every home folder that is known has proper names. -/
def Host.ProperHomes (host : Host) : Prop :=
  ∀ account home, host.homeOf account = some home → home.Proper

theorem Host.bare_properHomes (working : Location) {home : Location} (h : home.Proper) :
    (bare working home).ProperHomes := by
  intro account l hl
  cases account with
  | nil =>
    cases hl
    exact h
  | cons c r => cases hl

/-- What a log tells. -/
inductive Event where
  | removingSnapshot (place : Text)
  | backedUp (source place : Text)
  | transformed (file : Text)
  | finished (folder : Text) (done copied skipped : Nat)
deriving Repr, DecidableEq

/-- A line of a log: level, origin and what is told. -/
def Event.line : Event → Text
  | removingSnapshot place =>
    "DEBUG snippet_engine.transform.backup: Removing previous snapshot ".toList ++ place
  | backedUp source place =>
    "INFO snippet_engine.transform.backup: Backed up ".toList ++ source ++ " to ".toList ++ place
  | transformed file => "DEBUG snippet_engine.transform.folder: Transformed ".toList ++ file
  | finished folder done copied skipped =>
    "INFO snippet_engine.transform.folder: Transformed ".toList ++ Text.ofNat done
      ++ " file(s) in ".toList ++ folder ++ " (".toList ++ Text.ofNat copied
      ++ " copied, ".toList ++ Text.ofNat skipped ++ " skipped)".toList

/-- What a run acts on. -/
structure Session where
  disk : Disk
  last : Option Location
  log : List Event
deriving Repr

/-- A run answers or fails, and either way leaves a session. -/
abbrev Run (ε α : Type) := ExceptT ε (StateM Session) α

namespace Run

variable {ε δ α β : Type}

/-- The disk as it is. -/
def disk : Run ε Disk := do
  return (← get).disk

/-- Adds to the log. -/
def tell (e : Event) : Run ε Unit :=
  modify fun s => { s with log := s.log ++ [e] }

/-- An answer that leaves the session as it is. -/
def ofExcept (wrap : δ → ε) : Except δ α → Run ε α
  | .ok a => pure a
  | .error e => throw (wrap e)

/-- An operation that answers a new disk. -/
def change (wrap : δ → ε) (f : Disk → Except δ Disk) : Run ε Unit := do
  let s ← get
  match f s.disk with
  | .ok disk => set { s with disk := disk }
  | .error e => throw (wrap e)

/-- An operation that leaves a disk also if it fails. -/
def act (wrap : δ → ε) (f : Disk → Except δ Unit × Disk) : Run ε Unit := do
  let s ← get
  set { s with disk := (f s.disk).2 }
  ofExcept wrap (f s.disk).1

/-! ### What a run does to a session -/

theorem run_bind (x : Run ε α) (f : α → Run ε β) (s : Session) :
    (x >>= f).run.run s = match x.run.run s with
      | (.ok a, s') => (f a).run.run s'
      | (.error e, s') => (.error e, s') := by
  rw [ExceptT.run_bind, StateT.run_bind]
  rcases StateT.run (ExceptT.run x) s with ⟨r, s'⟩
  cases r with
  | error e => rfl
  | ok a => rfl

theorem run_pure (a : α) (s : Session) : (pure a : Run ε α).run.run s = (.ok a, s) := rfl

theorem run_disk (s : Session) : (Run.disk : Run ε Disk).run.run s = (.ok s.disk, s) := rfl

theorem run_change (wrap : δ → ε) (f : Disk → Except δ Disk) (s : Session) :
    (Run.change wrap f).run.run s = match f s.disk with
      | .ok disk => (.ok (), { s with disk := disk })
      | .error e => (.error (wrap e), s) := by
  show (match f s.disk with
      | .ok disk => (set { s with disk := disk } : Run ε Unit)
      | .error e => throw (wrap e)).run.run s = _
  cases f s.disk with
  | error e => rfl
  | ok disk => rfl

theorem run_act (wrap : δ → ε) (f : Disk → Except δ Unit × Disk) (s : Session) :
    (Run.act wrap f).run.run s =
      ((f s.disk).1.mapError wrap, { s with disk := (f s.disk).2 }) := by
  show (Run.ofExcept wrap (f s.disk).1).run.run { s with disk := (f s.disk).2 } = _
  cases (f s.disk).1 with
  | error e => rfl
  | ok _ => rfl

theorem run_ofExcept (wrap : δ → ε) (x : Except δ α) (s : Session) :
    (Run.ofExcept wrap x).run.run s = (x.mapError wrap, s) := by
  cases x <;> rfl

theorem run_adapt (wrap : δ → ε) (x : Run δ α) (s : Session) :
    (x.adapt wrap).run.run s = ((x.run.run s).1.mapError wrap, (x.run.run s).2) := rfl

theorem bind_eq_ok {x : Run ε α} {f : α → Run ε β} {s s' : Session} {b : β}
    (h : (x >>= f).run.run s = (.ok b, s')) :
    ∃ a s₁, x.run.run s = (.ok a, s₁) ∧ (f a).run.run s₁ = (.ok b, s') := by
  rw [run_bind] at h
  rcases hx : x.run.run s with ⟨e | a, s₁⟩
  · rw [hx] at h
    cases h
  · rw [hx] at h
    exact ⟨a, s₁, rfl, h⟩

theorem adapt_eq_ok {wrap : δ → ε} {x : Run δ α} {s s' : Session} {a : α}
    (h : (x.adapt wrap).run.run s = (.ok a, s')) : x.run.run s = (.ok a, s') := by
  rw [run_adapt] at h
  rcases hx : x.run.run s with ⟨e | b, s₁⟩
  · rw [hx] at h
    cases h
  · rw [hx] at h
    cases h
    rfl

theorem change_eq_ok {wrap : δ → ε} {f : Disk → Except δ Disk} {s s' : Session}
    (h : (change wrap f).run.run s = (.ok (), s')) :
    ∃ disk, f s.disk = .ok disk ∧ s' = { s with disk } := by
  rw [run_change] at h
  split at h
  · rename_i disk hdisk
    cases h
    exact ⟨disk, hdisk, rfl⟩
  · cases h

theorem act_eq_ok {wrap : δ → ε} {f : Disk → Except δ Unit × Disk} {s s' : Session}
    (h : (act wrap f).run.run s = (.ok (), s')) :
    ∃ disk, f s.disk = (.ok (), disk) ∧ s' = { s with disk } := by
  rw [run_act] at h
  rcases hf : f s.disk with ⟨e | _, disk⟩
  · rw [hf] at h
    cases h
  · rw [hf] at h
    cases h
    exact ⟨disk, rfl, rfl⟩

end Run
end Handout
