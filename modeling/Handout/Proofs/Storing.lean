/-
# Settings that a file can hold

Settings are saved by every command that changes one of them and loaded before the next. What
is loaded has been through a filter: its extensions begin with dots and have no spaces in them,
and its backup folder, if there is one, has a name (`Kept`, `kept_ofBytes`), for a value that
counts as true is not shown as an empty text (`shown_ne_nil`).

How a value is written is left to a library. What is asked of it is that it reads what it has
written for settings, and that it writes no carriage returns, which a file that is opened as a
text would not give back (`Yaml.Faithful`). Then settings with such extensions come back as they
were saved, but for an empty backup folder, which counts as none (`ofBytes_saved`, `reloaded`).
So nothing is lost by loading and saving what was loaded (`reloaded_of_kept`).

Key definitions: `Yaml.Faithful`, `Listed`, `Settings.Kept`, `Settings.reloaded`.
Key theorems: `parseExtensions_filterText`, `kept_ofBytes`, `ofValue_toValue`, `ofBytes_saved`,
`reloaded_of_kept`.
-/
import Handout.Proofs.Encoding
import Handout.Proofs.Trimming
import Handout.Settings.Store

namespace Handout

/-! ### What is asked of the library -/

/-- The library reads the documents that it writes for settings, and a file gives them back. -/
structure Yaml.Faithful (yaml : Yaml) : Prop where
  load_dump : ∀ s : Settings, yaml.load (yaml.dump s.toValue) = .ok s.toValue
  no_return : ∀ s : Settings, '\r' ∉ yaml.dump s.toValue

/-! ### Values that count as true -/

namespace Value

theorem layout_ne_nil (digits : Text) (order : Int) : layout digits order ≠ [] := by
  unfold layout
  split_ifs
  · cases order with
    | ofNat k => simp
    | negSucc k => simp
  · simp
  · simp

/-- A value that counts as true is shown as a text that is not empty. -/
theorem shown_ne_nil {v : Value} (htrue : v.isTrue = true) : v.shown ≠ [] := by
  cases v with
  | null => cases htrue
  | bool b =>
    cases b with
    | false => cases htrue
    | true => simp [shown, inside]
  | int n =>
    show Text.ofInt n ≠ []
    unfold Text.ofInt
    split_ifs
    · exact List.cons_ne_nil _ _
    · exact Text.ofNat_ne_nil _
  | float x =>
    show x.text ≠ []
    cases x with
    | nan => simp [Binary64.text]
    | infinity negative => simp [Binary64.text]
    | finite negative mantissa exponent =>
      rw [Binary64.text]
      refine List.append_ne_nil_of_right_ne_nil _ ?_
      split
      · simp
      · exact layout_ne_nil _ _
  | other o => exact o.shown_ne_nil
  | text t => simpa [isTrue, shown] using htrue
  | list items => simp [shown, inside]
  | map pairs => simp [shown, inside]

end Value

/-! ### Filters -/

/-- Extensions that a filter can hold: each begins with a dot and has no space in it. -/
def Listed (extensions : List Text) : Prop :=
  ∀ e ∈ extensions, e.head? = some '.' ∧ ' ' ∉ e

theorem parseExtensions_eq_ok {filter : Text} {extensions : List Text}
    (h : parseExtensions filter = .ok extensions) :
    extensions = filterEntries filter ∧ Listed extensions := by
  unfold parseExtensions at h
  split at h
  · cases h
  · rename_i hnone
    cases h
    refine ⟨rfl, fun e he => ⟨?_, ?_⟩⟩
    · simpa using List.find?_eq_none.mp hnone e he
    · exact Text.not_mem_of_mem_splitAt (List.mem_filter.mp he).1

theorem filterEntries_filterText {extensions : List Text} (h : Listed extensions) :
    filterEntries (filterText extensions) = extensions := by
  rcases eq_or_ne extensions [] with rfl | h0
  · rfl
  · rw [filterEntries, filterText, Text.splitAt_joinWith h0 fun e he => (h e he).2]
    refine List.filter_eq_self.mpr fun e he => ?_
    cases e with
    | nil => cases (h [] he).1
    | cons c r => rfl

/-- A filter is read back from the extensions it holds. -/
theorem parseExtensions_filterText {extensions : List Text} (h : Listed extensions) :
    parseExtensions (filterText extensions) = .ok extensions := by
  unfold parseExtensions
  rw [filterEntries_filterText h]
  split
  · rename_i e he
    have hbad := List.find?_some he
    rw [(h e (List.mem_of_find?_eq_some he)).1] at hbad
    simp at hbad
  · rfl

theorem listed_default : Listed defaultExtensions := by
  have h : (defaultExtensions.all fun e => e.head? == some '.' && !e.contains ' ') = true := by
    decide +kernel
  intro e he
  simpa using List.all_eq_true.mp h e he

namespace Settings

theorem listed_extensionsOf {v : Option Value} {extensions : List Text}
    (h : extensionsOf v = .ok extensions) : Listed extensions := by
  have hparse : ∀ {filter : Text},
      (parseExtensions filter).mapError SettingsError.extension = .ok extensions →
        Listed extensions := by
    intro filter hf
    cases hp : parseExtensions filter with
    | error e => rw [hp] at hf; cases hf
    | ok l =>
      rw [hp] at hf
      cases hf
      exact (parseExtensions_eq_ok hp).2
  unfold extensionsOf at h
  split at h
  · cases h
    exact listed_default
  · cases h
    exact listed_default
  · split at h
    · exact hparse h
    · cases h

/-- Settings that a file can hold: their extensions can stand in a filter, and their backup
folder has a name. -/
structure Kept (s : Settings) : Prop where
  listed : Listed s.extensions
  named : s.backupFolder ≠ some []

theorem kept_default : Kept default := ⟨listed_default, by simp [default]⟩

theorem kept_ofPairs {pairs : List (Value × Value)} {s : Settings} (h : ofPairs pairs = .ok s) :
    s.Kept := by
  rw [ofPairs] at h
  cases he : extensionsOf (Value.get? extensionsKey pairs) with
  | error e => rw [he] at h; cases h
  | ok extensions =>
    rw [he] at h
    cases h
    refine ⟨listed_extensionsOf he, ?_⟩
    cases hb : Value.get? backupKey pairs with
    | none => simp [backupOf]
    | some w =>
      rw [backupOf]
      split
      · rename_i htrue
        rw [Ne, Option.some.injEq]
        exact Value.shown_ne_nil htrue
      · simp

/-- A map denotes what its pairs denote, also an empty one. -/
theorem ofValue_map (path : Text) (pairs : List (Value × Value)) :
    ofValue path (.map pairs) = ofPairs pairs := by
  cases pairs with
  | nil => rfl
  | cons p r => rfl

/-- Any other value stands for the default settings or is refused. -/
theorem ofValue_of_not_map {v : Value} (h : ∀ pairs, v ≠ .map pairs) (path : Text) :
    ofValue path v = if v.isTrue then .error (.notMap path) else .ok default := by
  unfold ofValue
  cases v.isTrue with
  | false => rfl
  | true =>
    cases v with
    | map pairs => exact absurd rfl (h pairs)
    | _ => rfl

theorem kept_ofValue {path : Text} {v : Value} {s : Settings} (h : ofValue path v = .ok s) :
    s.Kept := by
  by_cases hmap : ∃ pairs, v = .map pairs
  · obtain ⟨pairs, rfl⟩ := hmap
    rw [ofValue_map] at h
    exact kept_ofPairs h
  · rw [ofValue_of_not_map (not_exists.mp hmap)] at h
    split_ifs at h
    cases h
    exact kept_default

/-- What is loaded after settings were saved: an empty backup folder counts as none. -/
def reloaded (s : Settings) : Settings :=
  { s with backupFolder := s.backupFolder.filter fun t => !t.isEmpty }

theorem reloaded_of_kept {s : Settings} (h : s.Kept) : s.reloaded = s := by
  obtain ⟨extensions, backupFolder, preferSpecial⟩ := s
  have hnamed : backupFolder ≠ some [] := h.named
  rw [reloaded, Settings.mk.injEq]
  refine ⟨rfl, ?_, rfl⟩
  rcases backupFolder with _ | _ | ⟨c, r⟩
  · rfl
  · exact absurd rfl hnamed
  · rfl

/-- The keys of a document. -/
def keys : List Text := [extensionsKey, backupKey, specialKey]

theorem nodup_keys : extensionsKey ≠ backupKey ∧ extensionsKey ≠ specialKey ∧
    backupKey ≠ specialKey := by
  have h : keys.Nodup := by decide +kernel
  simpa [keys, and_assoc] using h

/-- The value of settings denotes them again. -/
theorem ofValue_toValue (path : Text) {s : Settings} (h : Listed s.extensions) :
    ofValue path s.toValue = .ok s.reloaded := by
  obtain ⟨h12, h13, h23⟩ := nodup_keys
  have hshown : (s.extensions.map Value.text).map Value.shown = s.extensions := by
    rw [List.map_map]
    exact List.map_id'' (fun _ => rfl) _
  have hext : extensionsOf (some (.list (s.extensions.map .text))) = .ok s.extensions := by
    simp only [extensionsOf, filterOf?, hshown, parseExtensions_filterText h]
    rfl
  have hback : backupOf (some s.backupValue) = s.backupFolder.filter fun t => !t.isEmpty := by
    unfold backupValue
    rcases s.backupFolder with _ | _ | ⟨c, r⟩
    · rfl
    · rfl
    · rfl
  have hspecial : (some (Value.bool s.preferSpecial)).any Value.isTrue = s.preferSpecial := rfl
  rw [toValue, ofValue_map]
  simp only [ofPairs, Value.get?, if_true, h12, h13, h23, if_false, hext, hback, hspecial]
  rfl

section Loading

variable {yaml : Yaml} {path : Text}

/-- **Saving and loading** keeps settings with a proper filter as they are, but for an empty
backup folder. -/
theorem ofBytes_saved (hyaml : yaml.Faithful) (path : Text) {s : Settings}
    (h : Listed s.extensions) :
    ofBytes yaml path (Utf8.encode (yaml.dump s.toValue)) = .ok s.reloaded := by
  have hload : yaml.load (unifyBreaks (yaml.dump s.toValue)) = .ok s.toValue := by
    rw [unifyBreaks_eq_self (hyaml.no_return s)]
    exact hyaml.load_dump s
  rw [ofBytes, Utf8.decode_encode]
  simp only [Except.mapError, bind, Except.bind, hload]
  exact ofValue_toValue path h

theorem kept_ofBytes {content : Bytes} {s : Settings} (h : ofBytes yaml path content = .ok s) :
    s.Kept := by
  rw [ofBytes] at h
  cases hd : Utf8.decode content with
  | error e => rw [hd] at h; cases h
  | ok source =>
    rw [hd] at h
    cases hv : yaml.load (unifyBreaks source) with
    | error e => simp only [Except.mapError, bind, Except.bind, hv] at h; cases h
    | ok v =>
      simp only [Except.mapError, bind, Except.bind, hv] at h
      exact kept_ofValue h

end Loading

end Settings
end Handout
