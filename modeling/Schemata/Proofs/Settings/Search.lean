import Mathlib.Tactic.Common
import Schemata.Settings.File

/-!
# Which settings count

A settings file is accepted if it exists, can be read in the format of its extension, and sets
nothing that no run could use. The search for settings ends at the first place with an accepted
file: what was refused before it and what stands behind it does not matter. A file that is named for
the run counts alone, and is an error if it is refused.
-/

namespace Schemata

/-- Settings that a run can use. -/
structure Settings.Usable (s : Settings) : Prop where
  suffix : s.schemas.suffix ≠ ""
  catalogFile : s.schemas.catalogFile ≠ ""

instance (s : Settings) : Decidable s.Usable :=
  decidable_of_iff (s.schemas.suffix ≠ "" ∧ s.schemas.catalogFile ≠ "")
    ⟨fun h => ⟨h.1, h.2⟩, fun h => ⟨h.suffix, h.catalogFile⟩⟩

theorem Disk.exists_of_readText {d : Disk} {p : FilePath} {text : String}
    (h : d.readText p = .ok text) : d.exists p := by
  unfold readText at h
  unfold Disk.exists
  cases hfind : d.find p true with
  | ok found => rfl
  | error e =>
    rw [hfind] at h
    cases h

namespace Settings

/-- The file at a place gives these settings. -/
structure Accepts (d : Disk) (p : FilePath) (s : Settings) : Prop where
  here : d.exists p
  read : ∃ text t, d.readText p = .ok text ∧ readFields p text = .ok t ∧ s = ofTree t
  usable : s.Usable

/-- Why the file at a place gives no settings. -/
inductive Refuses (d : Disk) (p : FilePath) : SettingsError → Prop where
  | unreadable {cause : DiskError} (h : d.readText p = .error cause) :
    Refuses d p (.unreadable cause)
  | malformed {text : String} {e : SettingsError} (h : d.readText p = .ok text)
    (ht : readFields p text = .error e) : Refuses d p e
  | emptySuffix {text : String} {t : Tree} (h : d.readText p = .ok text)
    (ht : readFields p text = .ok t) (hs : (ofTree t).schemas.suffix = "") :
    Refuses d p .emptySuffix
  | emptyCatalogFile {text : String} {t : Tree} (h : d.readText p = .ok text)
    (ht : readFields p text = .ok t) (hs : (ofTree t).schemas.suffix ≠ "")
    (hc : (ofTree t).schemas.catalogFile = "") : Refuses d p .emptyCatalogFile

/-- The first of some places whose file is accepted, and its settings. -/
def FirstAccepted (d : Disk) (ps : List FilePath) (p : FilePath) (s : Settings) : Prop :=
  ∃ before after, ps = before ++ p :: after ∧ (∀ q ∈ before, ∀ t, ¬ Accepts d q t) ∧
    Accepts d p s

variable {d d' : Disk} {p : FilePath} {ps before : List FilePath} {s t : Settings}
  {env : Environment} {file : Option FilePath}

theorem usable_standard : standard.Usable := ⟨by decide, by decide⟩

theorem check_of_usable (h : s.Usable) : check s = .ok s := by
  rw [check, if_neg h.suffix, if_neg h.catalogFile]

theorem ofFile_of_accepts (h : Accepts d p s) : ofFile d p = .ok s := by
  obtain ⟨text, t, htext, ht, rfl⟩ := h.read
  rw [ofFile, htext]
  change (readFields p text >>= fun t => check (ofTree t)) = _
  rw [ht]
  exact check_of_usable h.usable

theorem ofFile_of_refuses {e : SettingsError} (h : Refuses d p e) : ofFile d p = .error e := by
  have read {text : String} (htext : d.readText p = .ok text) :
      ofFile d p = readFields p text >>= fun t => check (ofTree t) := by
    rw [ofFile, htext]
    rfl
  cases h with
  | unreadable h =>
    rw [ofFile, h]
    rfl
  | malformed h ht =>
    rw [read h, ht]
    rfl
  | emptySuffix h ht hs =>
    rw [read h, ht]
    exact if_pos hs
  | emptyCatalogFile h ht hs hc =>
    rw [read h, ht]
    exact (if_neg hs).trans (if_pos hc)

theorem accepts_or_refuses (d : Disk) (p : FilePath) :
    (∃ s, Accepts d p s) ∨ ∃ e, Refuses d p e := by
  cases htext : d.readText p with
  | error cause => exact .inr ⟨_, .unreadable htext⟩
  | ok text =>
    cases ht : readFields p text with
    | error e => exact .inr ⟨_, .malformed htext ht⟩
    | ok t =>
      by_cases hs : (ofTree t).schemas.suffix = ""
      · exact .inr ⟨_, .emptySuffix htext ht hs⟩
      by_cases hc : (ofTree t).schemas.catalogFile = ""
      · exact .inr ⟨_, .emptyCatalogFile htext ht hs hc⟩
      · exact .inl ⟨_, Disk.exists_of_readText htext, ⟨_, _, htext, ht, rfl⟩, hs, hc⟩

theorem ofFile_eq_ok_iff : ofFile d p = .ok s ↔ Accepts d p s := by
  refine ⟨fun h => ?_, ofFile_of_accepts⟩
  rcases accepts_or_refuses d p with ⟨t, ht⟩ | ⟨e, he⟩
  · rw [ofFile_of_accepts ht] at h
    cases h
    exact ht
  · rw [ofFile_of_refuses he] at h
    cases h

theorem ofFile_eq_error_iff {e : SettingsError} : ofFile d p = .error e ↔ Refuses d p e := by
  refine ⟨fun h => ?_, ofFile_of_refuses⟩
  rcases accepts_or_refuses d p with ⟨t, ht⟩ | ⟨e', he⟩
  · rw [ofFile_of_accepts ht] at h
    cases h
  · rw [ofFile_of_refuses he] at h
    cases h
    exact he

theorem not_accepts (h : (ofFile d p).isOk = false) (t : Settings) : ¬ Accepts d p t := by
  intro ht
  rw [ofFile_of_accepts ht] at h
  cases h

theorem ofFile_congr (h : d'.readText p = d.readText p) : ofFile d' p = ofFile d p := by
  rw [ofFile, ofFile, h]

theorem search_cons_of_accepts (h : Accepts d p s) (ps : List FilePath) :
    search d (p :: ps) = ([], s) := by
  rw [search, if_pos h.here, ofFile_of_accepts h]

theorem search_cons_of_not_accepts (h : ∀ t, ¬ Accepts d p t) (ps : List FilePath) :
    (search d (p :: ps)).2 = (search d ps).2 := by
  rw [search]
  split
  · rcases accepts_or_refuses d p with ⟨t, ht⟩ | ⟨e, he⟩
    · exact absurd ht (h t)
    · rw [ofFile_of_refuses he]
  · rfl

theorem search_append (h : ∀ q ∈ before, ∀ t, ¬ Accepts d q t) (ps : List FilePath) :
    (search d (before ++ ps)).2 = (search d ps).2 := by
  induction before with
  | nil => rfl
  | cons q before ih =>
    rw [List.forall_mem_cons] at h
    rw [List.cons_append, search_cons_of_not_accepts h.1, ih h.2]

theorem search_of_first (h : FirstAccepted d ps p s) : (search d ps).2 = s := by
  obtain ⟨before, after, rfl, hbefore, hp⟩ := h
  rw [search_append hbefore, search_cons_of_accepts hp]

theorem search_of_none (h : ∀ p ∈ ps, ∀ t, ¬ Accepts d p t) : (search d ps).2 = standard := by
  have hsearch := search_append h []
  rwa [List.append_nil] at hsearch

theorem first_or_none (d : Disk) (ps : List FilePath) :
    (∃ p s, FirstAccepted d ps p s) ∨ ∀ p ∈ ps, ∀ t, ¬ Accepts d p t := by
  induction ps with
  | nil => exact .inr (List.forall_mem_nil _)
  | cons p ps ih =>
    by_cases hp : ∃ s, Accepts d p s
    · obtain ⟨s, hs⟩ := hp
      exact .inl ⟨p, s, [], ps, rfl, List.forall_mem_nil _, hs⟩
    rw [not_exists] at hp
    rcases ih with ⟨q, s, before, after, rfl, hbefore, hq⟩ | hnone
    · exact .inl ⟨q, s, p :: before, after, rfl, List.forall_mem_cons.2 ⟨hp, hbefore⟩, hq⟩
    · exact .inr (List.forall_mem_cons.2 ⟨hp, hnone⟩)

theorem load_none (d : Disk) (env : Environment) :
    (load d env none).2 = .ok (search d (places env)).2 := rfl

theorem load_some (d : Disk) (env : Environment) (p : FilePath) :
    (load d env (some p)).2 = ofFile d p := rfl

/-- Whatever a run loads, it can use. -/
theorem usable_of_load (h : (load d env file).2 = .ok s) : s.Usable := by
  cases file with
  | some p =>
    rw [load_some, ofFile_eq_ok_iff] at h
    exact h.usable
  | none =>
    rw [load_none] at h
    cases h
    rcases first_or_none d (places env) with ⟨p, s, hfirst⟩ | hnone
    · rw [search_of_first hfirst]
      obtain ⟨-, -, -, -, hp⟩ := hfirst
      exact hp.usable
    · rw [search_of_none hnone]
      exact usable_standard

/-- The first usable file wins. Without a file of its own a run always has settings: those of the
first place whose file is accepted, or else the standard ones. Whatever the other places hold, as
long as none before the first is accepted, and whatever else is in the variables, the settings are
the same. A file that is named for the run is the only one that counts, and every reason to refuse
it is an error. -/
theorem load_first_accepted (d : Disk) (env : Environment) :
    (∃ s, (load d env none).2 = .ok s ∧ ((∃ p, FirstAccepted d (places env) p s) ∨
      (∀ p ∈ places env, ∀ t, ¬ Accepts d p t) ∧ s = standard)) ∧
    (∀ p s, FirstAccepted d (places env) p s → ∀ d' env' before after,
      places env' = before ++ p :: after → (∀ q ∈ before, ∀ t, ¬ Accepts d' q t) →
      d'.readText p = d.readText p → (load d' env' none).2 = .ok s) ∧
    ∀ p, (∀ s, (load d env (some p)).2 = .ok s ↔ Accepts d p s) ∧
      (∀ e, (load d env (some p)).2 = .error e ↔ Refuses d p e) ∧
      ∀ d' env', d'.readText p = d.readText p → load d' env' (some p) = load d env (some p) := by
  refine ⟨?_, ?_, fun p => ⟨fun s => ?_, fun e => ?_, fun d' env' htext => ?_⟩⟩
  · rcases first_or_none d (places env) with ⟨p, s, hfirst⟩ | hnone
    · exact ⟨s, by rw [load_none, search_of_first hfirst], .inl ⟨p, hfirst⟩⟩
    · exact ⟨standard, by rw [load_none, search_of_none hnone], .inr ⟨hnone, rfl⟩⟩
  · rintro p s ⟨-, -, -, -, hp⟩ d' env' before after hplaces hbefore htext
    have hp' : Accepts d' p s := by
      rw [← ofFile_eq_ok_iff, ofFile_congr htext]
      exact ofFile_of_accepts hp
    rw [load_none, search_of_first ⟨before, after, hplaces, hbefore, hp'⟩]
  · rw [load_some, ofFile_eq_ok_iff]
  · rw [load_some, ofFile_eq_error_iff]
  · rw [load, load, ofFile_congr htext]

def Drawer.usable : String := "\x7b\"schemas\": \x7b\"catalog_title\": \"Terms\"\x7d\x7d"

def Drawer.full : Disk :=
  ⟨[([".ontoref.yaml"], .file (.text "schemas: [1")), ([".ontoref.json"], .directory),
    (["ontoref.yaml"], .file (.text "schemas:\n  suffix: ''\n  catalog_title: Lost\n")),
    (["ontoref.json"], .file (.text usable)), (["h"], .directory),
    (["h", ".ontoref.yaml"], .file (.text "schemas:\n  catalog_title: Late\n"))], []⟩

def Drawer.empty : Disk := ⟨[(["ontoref.json"], .file (.text usable))], []⟩

def Drawer.account : Environment := .ofVariables [("HOME", "")] (some "/h")

def Drawer.elsewhere : Environment := .ofVariables [("XDG_CONFIG_HOME", "/x")] none

theorem Drawer.first_wins : (places account).length = 8 ∧
    FirstAccepted full (places account) ⟨"ontoref.json"⟩
      { standard with schemas.catalogTitle := "Terms" } ∧
    (load empty elsewhere none).2 = .ok { standard with schemas.catalogTitle := "Terms" } := by
  have accepted : ofFile full ⟨"ontoref.json"⟩ =
      .ok { standard with schemas.catalogTitle := "Terms" } := by decide +kernel
  have refused : ∀ q ∈ (places account).take 3, (ofFile full q).isOk = false := by decide +kernel
  have absent : ∀ q ∈ (places elsewhere).take 3, (ofFile empty q).isOk = false := by decide +kernel
  have first : FirstAccepted full (places account) ⟨"ontoref.json"⟩
      { standard with schemas.catalogTitle := "Terms" } :=
    ⟨_, _, rfl, fun q hq => not_accepts (refused q hq), ofFile_eq_ok_iff.1 accepted⟩
  refine ⟨by decide +kernel, first, (load_first_accepted full account).2.1 _ _ first empty elsewhere
    _ _ rfl (fun q hq => not_accepts (absent q hq)) ?_⟩
  decide +kernel

end Settings

end Schemata
