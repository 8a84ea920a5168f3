import Mathlib.Data.List.DropRight
import Triage.Program
import Triage.Proofs.SourceGrammar

/-!
The normal form of the settings.

`Config.IsNormal` says what the checks leave behind. Settings that pass them come out normal
(`PassesChecks.isNormal`), and normal settings pass them as they are (`IsNormal.validate_eq`), so
checking them once more finds and changes nothing. Two steps need an argument: an endpoint without
the slashes at its end is still a URL, since they all belong to its path
(`Source.isUrl_withoutSlashes`), and what is left of the phases stands in the order of first
occurrence (`pairwise_eraseDups`).
-/

namespace Triage

/-! ## Erasing what occurs again -/

section

variable {α : Type} [DecidableEq α]

theorem idxOf_lt_of_filter (keep : α → Bool) {a b : α} (ha : keep a) (hb : keep b) {l : List α}
    (h : (l.filter keep).idxOf a < (l.filter keep).idxOf b) : l.idxOf a < l.idxOf b := by
  induction l with
  | nil => simp at h
  | cons c l ih =>
    by_cases hc : keep c
    · rw [List.filter_cons_of_pos hc] at h
      simp only [List.idxOf_cons] at h ⊢
      grind
    · rw [List.filter_cons_of_neg hc] at h
      have hca : c ≠ a := fun heq => hc (heq ▸ ha)
      have hcb : c ≠ b := fun heq => hc (heq ▸ hb)
      rw [List.idxOf_cons_ne l hca, List.idxOf_cons_ne l hcb]
      exact Nat.succ_lt_succ (ih h)

/-- What is left stands in the order of its first occurrences. -/
theorem pairwise_eraseDups (l : List α) :
    l.eraseDups.Pairwise fun a b => l.idxOf a < l.idxOf b := by
  match l with
  | [] => exact .nil
  | c :: l =>
    have hmem : ∀ a ∈ (l.filter fun b => !b == c).eraseDups, (!a == c) = true := fun a ha =>
      (List.mem_filter.mp (List.mem_eraseDups.mp ha)).2
    have hne : ∀ a ∈ (l.filter fun b => !b == c).eraseDups, c ≠ a := fun a ha heq => by
      simpa [heq] using hmem a ha
    rw [List.eraseDups_cons]
    refine .cons (fun a ha => ?_) ((pairwise_eraseDups _).imp_of_mem fun {a b} ha hb h => ?_)
    · rw [List.idxOf_cons_self, List.idxOf_cons_ne l (hne a ha)]
      exact Nat.succ_pos _
    · rw [List.idxOf_cons_ne l (hne a ha), List.idxOf_cons_ne l (hne b hb)]
      exact Nat.succ_lt_succ (idxOf_lt_of_filter (fun b => !b == c) (hmem a ha) (hmem b hb) h)
termination_by l.length
decreasing_by exact Nat.lt_succ_of_le (List.length_filter_le ..)

theorem nodup_eraseDups (l : List α) : l.eraseDups.Nodup :=
  (pairwise_eraseDups l).imp fun {a b} h heq => by simp [heq] at h

theorem eraseDups_eq_self {l : List α} (h : l.Nodup) : l.eraseDups = l := by
  induction l with
  | nil => rfl
  | cons c l ih =>
    rw [List.nodup_cons] at h
    have hfilter : (l.filter fun b => !b == c) = l := by
      rw [List.filter_eq_self]
      intro b hb
      simpa using fun heq : b = c => h.1 (heq ▸ hb)
    rw [List.eraseDups_cons, hfilter, ih h.2]

end

/-! ## Endpoints -/

namespace Config

theorem withoutSlashes_eq_rdropWhile (s : Text) :
    withoutSlashes s = s.rdropWhile (· == Byte.slash) := rfl

theorem withoutSlashes_prefix (s : Text) : withoutSlashes s <+: s :=
  List.rdropWhile_prefix _ s

theorem withoutSlashes_eq_self_iff (s : Text) :
    withoutSlashes s = s ↔ s.getLast? ≠ some Byte.slash := by
  rw [withoutSlashes_eq_rdropWhile, List.rdropWhile_eq_self_iff]
  by_cases hs : s = []
  · simp [hs]
  · simp [hs, List.getLast?_eq_some_getLast hs]

theorem getLast?_withoutSlashes (s : Text) : (withoutSlashes s).getLast? ≠ some Byte.slash :=
  (withoutSlashes_eq_self_iff _).mp (List.rdropWhile_idempotent _ s)

/-- Only slashes at the very end are dropped. -/
theorem withoutSlashes_append {s : Text} (h : s.getLast? ≠ some Byte.slash) (tail : Text) :
    withoutSlashes (s ++ tail) = s ++ withoutSlashes tail := by
  induction tail using List.reverseRecOn with
  | nil => simpa [withoutSlashes_eq_rdropWhile] using (withoutSlashes_eq_self_iff s).mpr h
  | append_singleton tail b ih =>
    simp only [withoutSlashes_eq_rdropWhile] at ih ⊢
    rw [← List.append_assoc, List.rdropWhile_concat, List.rdropWhile_concat, ih]
    split
    · rfl
    · exact List.append_assoc ..

end Config

namespace Source

theorem IsPath.of_prefix {v w : Text} (h : IsPath w) (hv : v <+: w) : IsPath v := by
  cases h with
  | none => exact List.prefix_nil.mp hv ▸ .none
  | rooted hw =>
    cases v with
    | nil => exact .none
    | cons b v =>
      obtain ⟨rfl, hrest⟩ := List.cons_prefix_cons.mp hv
      exact .rooted fun b hb => hw b (hrest.subset hb)

namespace Url

/-- The host and the port do not end with a slash. -/
theorem getLast?_front (u : Url) : u.front.getLast? ≠ some Byte.slash := by
  intro h
  rw [front, List.getLast?_append_of_ne_nil _ u.authority_ne_nil] at h
  exact (of_isAuthorityByte _ (u.isAuthorityByte _ (List.mem_of_getLast? h))).2.2 rfl

/-- The URL with the slashes at the end of its path left out. -/
def withoutSlashes (u : Url) : Url :=
  { u with
    path := Config.withoutSlashes u.path
    isPath := u.isPath.of_prefix (Config.withoutSlashes_prefix u.path) }

theorem withoutSlashes_text (u : Url) : Config.withoutSlashes u.text = u.withoutSlashes.text :=
  Config.withoutSlashes_append u.getLast?_front u.path

end Url

/-- A URL is still one without the slashes at its end. -/
theorem isUrl_withoutSlashes {s : Text} (h : isUrl s) : isUrl (Config.withoutSlashes s) := by
  simp only [isUrl, Bool.and_eq_true, decide_eq_true_eq, fits_urlPattern_iff, Bool.not_eq_true',
    List.any_eq_false] at h ⊢
  obtain ⟨⟨hlen, u, rfl⟩, hcontrol⟩ := h
  have hshort := Config.withoutSlashes_prefix u.text
  exact ⟨⟨hshort.length_le.trans hlen, u.withoutSlashes, u.withoutSlashes_text.symm⟩,
    fun b hb => hcontrol b (hshort.subset hb)⟩

end Source

/-! ## Normal settings -/

namespace Config

/-- A name under which a pass can be enabled. -/
structure IsPassName (pass : Text) : Prop where
  length_le : pass.length ≤ maxPassName
  isPrintable : ∀ b ∈ pass, isPrintable b

/-- What the checks of the settings leave behind. -/
structure IsNormal (c : Config) : Prop where
  httpTimeout_pos : 0 < c.httpTimeout
  scannerTimeout_pos : 0 < c.scannerTimeout
  parallelThreads_nonneg : 0 ≤ c.parallelThreads
  maxFileBytes_pos : 0 < c.maxFileBytes
  format : c.format = "text".ascii ∨ c.format = "json".ascii ∨ c.format = "sarif".ascii
  minSeverity : Text.trim c.minSeverity = [] ∨ (Severity.ofName? c.minSeverity).isSome
  logLevel : ∃ level, LogLevel.ofName? c.logLevel = some level ∧
    Text.toLower (Text.trim c.logLevel) = level.name
  apiEndpoint : c.apiEndpoint = [] ∨ Source.checkUrl c.apiEndpoint = .ok ()
  apiEndpoint_end : c.apiEndpoint.getLast? ≠ some Byte.slash
  enabled : ∀ pass ∈ c.enabled, pass ≠ [] → pass ∉ c.disabled ∧ IsPassName pass
  externalTools : ∀ tool ∈ c.externalTools, ∀ b ∈ tool, isToolByte b
  phases_nodup : c.phases.Nodup

/-! ## The single checks -/

theorem numberProblem?_eq_none_iff (c : Config) : c.numberProblem? = none ↔
    0 < c.httpTimeout ∧ 0 < c.scannerTimeout ∧ 0 ≤ c.parallelThreads ∧ 0 < c.maxFileBytes := by
  unfold numberProblem?
  split_ifs <;> simp <;> omega

theorem formats_contains_iff (s : Text) :
    formats.contains s ↔ s = "text".ascii ∨ s = "json".ascii ∨ s = "sarif".ascii := by
  simp [formats]

/-- The names of formats are written as they are compared. -/
theorem toLower_trim_of_format {s : Text}
    (h : s = "text".ascii ∨ s = "json".ascii ∨ s = "sarif".ascii) :
    Text.toLower (Text.trim s) = s := by
  rcases h with rfl | rfl | rfl <;> decide

theorem acceptsSeverity_iff (s : Text) :
    acceptsSeverity s ↔ Text.trim s = [] ∨ (Severity.ofName? s).isSome := by
  simp only [acceptsSeverity, Severity.ofName?, Text.trim_trim, Bool.or_eq_true, List.isEmpty_iff]

theorem acceptsLogLevel_iff (s : Text) : acceptsLogLevel s ↔
    ∃ level, LogLevel.ofName? s = some level ∧ Text.toLower (Text.trim s) = level.name := by
  rw [acceptsLogLevel, LogLevel.ofName?]
  generalize Text.toLower (Text.trim s) = name
  constructor
  · intro h
    have hname : name ∈ LogLevel.all.map LogLevel.name := List.contains_iff_mem.mp h
    obtain ⟨level, -, rfl⟩ := List.mem_map.mp hname
    exact ⟨level, by cases level <;> decide, rfl⟩
  · rintro ⟨level, -, rfl⟩
    cases level <;> decide

theorem choiceProblem?_eq_none_iff (c : Config) : c.choiceProblem? = none ↔
    formats.contains c.format ∧ acceptsSeverity c.minSeverity ∧ acceptsLogLevel c.logLevel := by
  unfold choiceProblem?
  split_ifs <;> simp_all

theorem checkEndpoint_eq_ok_iff (c : Config) : c.checkEndpoint = .ok () ↔
    c.apiEndpoint = [] ∨ Source.checkUrl c.apiEndpoint = .ok () := by
  unfold checkEndpoint
  split
  · simp_all
  · split <;> simp_all

theorem checkEnabled_eq_ok_none_iff (disabled enabled : List Text) :
    checkEnabled disabled enabled = .ok none ↔
      ∀ pass ∈ enabled, pass ≠ [] → pass ∉ disabled ∧ IsPassName pass := by
  induction enabled with
  | nil => simp [checkEnabled]
  | cons pass rest ih =>
    rw [checkEnabled, List.forall_mem_cons]
    split_ifs with hempty hconflict hlong hbyte
    · rw [List.isEmpty_iff] at hempty
      simp [hempty, ih]
    all_goals rw [List.isEmpty_iff] at hempty
    · exact iff_of_false nofun fun h => (h.1 hempty).1 (List.contains_iff_mem.mp hconflict)
    · exact iff_of_false nofun fun h => absurd (h.1 hempty).2.length_le (Nat.not_le.mpr hlong)
    · refine iff_of_false nofun fun h => ?_
      have hprint := List.all_eq_true.mpr (h.1 hempty).2.isPrintable
      simp [hprint] at hbyte
    · rw [ih]
      refine iff_and_self.mpr fun _ _ => ⟨fun h => hconflict (List.contains_iff_mem.mpr h), ?_⟩
      exact ⟨Nat.le_of_not_lt hlong, List.all_eq_true.mp (by simpa using hbyte)⟩

theorem checkNames_eq_ok_none_iff (c : Config) : c.checkNames = .ok none ↔
    (∀ pass ∈ c.enabled, pass ≠ [] → pass ∉ c.disabled ∧ IsPassName pass) ∧
      ∀ tool ∈ c.externalTools, ∀ b ∈ tool, isToolByte b := by
  have hfind : (c.externalTools.find? fun tool => !tool.all isToolByte) = none ↔
      ∀ tool ∈ c.externalTools, ∀ b ∈ tool, isToolByte b := by
    simp
  rw [← checkEnabled_eq_ok_none_iff, ← hfind, checkNames]
  cases checkEnabled c.disabled c.enabled with
  | error e => exact iff_of_false nofun fun h => nomatch h.1
  | ok problem =>
    cases problem with
    | some problem => exact iff_of_false nofun fun h => nomatch h.1
    | none =>
      cases hbad : c.externalTools.find? fun tool => !tool.all isToolByte with
      | some tool => exact iff_of_false nofun fun h => nomatch h.2
      | none => exact iff_of_true rfl ⟨rfl, rfl⟩

/-! ## All checks -/

/-- The settings in normal form, if they pass the checks. -/
def normalized (c : Config) : Config :=
  { c with
    format := Text.toLower (Text.trim c.format)
    apiEndpoint := withoutSlashes c.apiEndpoint
    phases := c.phases.eraseDups }

/-- No check finds a problem or an error. -/
structure PassesChecks (c : Config) : Prop where
  numbers : c.numberProblem? = none
  choices : { c with format := Text.toLower (Text.trim c.format) }.choiceProblem? = none
  endpoint : c.checkEndpoint = .ok ()
  names : c.checkNames = .ok none

theorem validate_eq_ok_none_iff (c c' : Config) :
    c.validate = (c', .ok none) ↔ c.PassesChecks ∧ c' = c.normalized := by
  constructor
  · intro h
    unfold validate at h
    split at h
    · simp at h
    · rename_i hnumbers
      simp only at h
      split at h
      · simp at h
      · rename_i hchoices
        split at h
        · simp at h
        · rename_i hendpoint
          split at h
          · rename_i hnames
            exact ⟨⟨hnumbers, hchoices, hendpoint, hnames⟩, (Prod.mk.inj h).1.symm⟩
          · rename_i hnames
            exact absurd (Prod.mk.inj h).2 hnames
  · rintro ⟨⟨hnumbers, hchoices, hendpoint, hnames⟩, rfl⟩
    -- the later checks do not read what was brought into normal form before them
    have hendpoint' : checkEndpoint { c with
        format := Text.toLower (Text.trim c.format) } = .ok () := hendpoint
    have hnames' : checkNames { c with
        format := Text.toLower (Text.trim c.format)
        apiEndpoint := withoutSlashes c.apiEndpoint } = .ok none := hnames
    simp only [validate, hnumbers, hchoices, hendpoint', hnames', normalized]

theorem PassesChecks.isNormal {c : Config} (h : c.PassesChecks) : c.normalized.IsNormal := by
  obtain ⟨hhttp, hscanner, hthreads, hbytes⟩ := (numberProblem?_eq_none_iff c).mp h.numbers
  obtain ⟨hformat, hseverity, hlevel⟩ := (choiceProblem?_eq_none_iff _).mp h.choices
  obtain ⟨henabled, htools⟩ := (checkNames_eq_ok_none_iff c).mp h.names
  -- The endpoint is checked with the slashes at its end, and stays a URL without them.
  have hendpoint : withoutSlashes c.apiEndpoint = [] ∨
      Source.checkUrl (withoutSlashes c.apiEndpoint) = .ok () := by
    simp only [Source.checkUrl_eq_ok_iff]
    rcases (checkEndpoint_eq_ok_iff c).mp h.endpoint with hnil | hurl
    · exact Or.inl (by rw [hnil]; rfl)
    · exact Or.inr (Source.isUrl_withoutSlashes ((Source.checkUrl_eq_ok_iff _).mp hurl))
  exact
    { httpTimeout_pos := hhttp
      scannerTimeout_pos := hscanner
      parallelThreads_nonneg := hthreads
      maxFileBytes_pos := hbytes
      format := (formats_contains_iff _).mp hformat
      minSeverity := (acceptsSeverity_iff _).mp hseverity
      logLevel := (acceptsLogLevel_iff _).mp hlevel
      apiEndpoint := hendpoint
      apiEndpoint_end := getLast?_withoutSlashes c.apiEndpoint
      enabled := henabled
      externalTools := htools
      phases_nodup := nodup_eraseDups c.phases }

namespace IsNormal

variable {c : Config} (h : c.IsNormal)
include h

theorem normalized_eq : c.normalized = c := by
  rw [normalized, toLower_trim_of_format h.format,
    (withoutSlashes_eq_self_iff _).mpr h.apiEndpoint_end, eraseDups_eq_self h.phases_nodup]

theorem passesChecks : c.PassesChecks where
  numbers := (numberProblem?_eq_none_iff c).mpr
    ⟨h.httpTimeout_pos, h.scannerTimeout_pos, h.parallelThreads_nonneg, h.maxFileBytes_pos⟩
  choices := by
    rw [toLower_trim_of_format h.format]
    exact (choiceProblem?_eq_none_iff c).mpr ⟨(formats_contains_iff _).mpr h.format,
      (acceptsSeverity_iff _).mpr h.minSeverity, (acceptsLogLevel_iff _).mpr h.logLevel⟩
  endpoint := (checkEndpoint_eq_ok_iff c).mpr h.apiEndpoint
  names := (checkNames_eq_ok_none_iff c).mpr ⟨h.enabled, h.externalTools⟩

/-- Normal settings pass the checks as they are. -/
theorem validate_eq : c.validate = (c, .ok none) :=
  (validate_eq_ok_none_iff c c).mpr ⟨h.passesChecks, h.normalized_eq.symm⟩

/-- The program goes on with normal settings and has nothing to say about them. -/
theorem checked_run (s : Session) : (Program.checked c).run s = (.ok (some c), s) := by
  rw [Program.checked, h.validate_eq]
  rfl

end IsNormal

/-- The checks bring the settings into normal form, change nothing else, and leave nothing to do:
checked once more, the settings stay as they are, and nothing is logged. -/
theorem validate_normalizes {c c' : Config} (h : c.validate = (c', .ok none)) :
    c'.IsNormal ∧
      (∀ phase, phase ∈ c'.phases ↔ phase ∈ c.phases) ∧
      c'.phases.Pairwise (fun a b => c.phases.idxOf a < c.phases.idxOf b) ∧
      c' = { c with
        format := Text.toLower (Text.trim c.format)
        apiEndpoint := withoutSlashes c.apiEndpoint
        phases := c'.phases } ∧
      c'.validate = (c', .ok none) ∧
      ∀ s : Session, (Program.checked c').run s = (.ok (some c'), s) := by
  obtain ⟨hpasses, rfl⟩ := (validate_eq_ok_none_iff c c').mp h
  have hnormal := hpasses.isNormal
  exact ⟨hnormal, fun _ => List.mem_eraseDups, pairwise_eraseDups c.phases, rfl,
    hnormal.validate_eq, hnormal.checked_run⟩

/-- A format in other letters, two slashes after the endpoint, and a phase named twice. -/
theorem validate_normalizes_untidy :
    validate {
        format := " JSON ".ascii
        apiEndpoint := "https://api.example.com/v1//".ascii
        phases := [.credentials, .installHooks, .credentials] } =
      ({
        format := "json".ascii
        apiEndpoint := "https://api.example.com/v1".ascii
        phases := [.credentials, .installHooks] }, .ok none) ∧
      IsNormal {
        format := "json".ascii
        apiEndpoint := "https://api.example.com/v1".ascii
        phases := [.credentials, .installHooks] } := by
  have h : validate {
        format := " JSON ".ascii
        apiEndpoint := "https://api.example.com/v1//".ascii
        phases := [.credentials, .installHooks, .credentials] } =
      ({
        format := "json".ascii
        apiEndpoint := "https://api.example.com/v1".ascii
        phases := [.credentials, .installHooks] }, .ok none) := by
    decide +kernel
  exact ⟨h, (validate_normalizes h).1⟩

end Config

end Triage
