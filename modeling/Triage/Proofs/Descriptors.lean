import Triage.Proofs.SourceGrammar

/-!
What an accepted source descriptor may hold.

A descriptor is accepted in one of three ways, which ask different questions (`Source.Accepted`).
The answers have one thing in common: the text can be shown, stored and handed on without harm
(`Source.harmless_of_check`). For URLs and packages that follows from their parts, each of which
has an alphabet of its own.
-/

namespace Triage

namespace Source

/-! ## What harmless means -/

/-- A URL of bounded length without white space, and without an at sign before its path. -/
structure HarmlessUrl (s : Text) : Prop where
  length_le : s.length ≤ 2048
  isHttp : "http://".ascii <+: s ∨ "https://".ascii <+: s
  isSpace_eq_false : ∀ b ∈ s, Byte.isSpace b = false
  parts : ∃ u : Url, u.text = s ∧ '@'.ascii ∉ u.front

/-- A byte of some part of a package name. -/
def isPackageByte (b : UInt8) : Bool :=
  isScopeByte b || isVersionByte b || "@/=".ascii.contains b

/-- A package name of bounded length that cannot be taken for an option or lead out of a
directory. -/
structure HarmlessPackage (s : Text) : Prop where
  length_le : s.length ≤ 214
  no_dots : ¬"..".ascii <:+: s
  no_dash : ¬"-".ascii <+: s
  isPackageByte : ∀ b ∈ s, isPackageByte b
  parts : ∃ p : Package, p.text = s

/-- A text without control bytes; what looks like a URL or a package is one. -/
structure Harmless (s : Text) : Prop where
  ne_nil : s ≠ []
  length_le : s.length ≤ 4096
  no_control : ∀ b ∈ s, 0x20 ≤ b ∧ b ≠ 0x7f
  url : "://".ascii <:+: s → HarmlessUrl s
  package : "pip:".ascii <+: s ∨ "npm:".ascii <+: s → HarmlessPackage (s.drop 4)

theorem isControl_eq_false_iff (b : UInt8) : isControl b = false ↔ 0x20 ≤ b ∧ b ≠ 0x7f := by
  simp [isControl]

/-! ## URLs -/

theorem Url.front_bytes (u : Url) : ∀ b ∈ u.front, Byte.isSpace b = false ∧ b ≠ '@'.ascii := by
  simp only [front, List.forall_mem_append]
  refine ⟨⟨?_, Text.forall_mem_of_all (by decide)⟩, fun b hb => ?_⟩
  · rcases u.isScheme with h | h <;> rw [h] <;> exact Text.forall_mem_of_all (by decide)
  · exact (of_isAuthorityByte b (u.isAuthorityByte b hb)).imp_right And.left

theorem Url.isHttp (u : Url) : "http://".ascii <+: u.text ∨ "https://".ascii <+: u.text := by
  refine u.isScheme.imp (fun h => ?_) fun h => ?_
  all_goals
    rw [text, front, h]
    exact ⟨u.authority ++ u.path, (List.append_assoc ..).symm⟩

theorem harmlessUrl_of_isUrl {s : Text} (h : isUrl s) : HarmlessUrl s := by
  simp only [isUrl, Bool.and_eq_true, decide_eq_true_eq, fits_urlPattern_iff] at h
  obtain ⟨⟨hlen, u, rfl⟩, -⟩ := h
  refine ⟨hlen, u.isHttp, ?_, u, rfl, fun hat => (u.front_bytes _ hat).2 rfl⟩
  rw [Url.text, List.forall_mem_append]
  exact ⟨fun b hb => (u.front_bytes b hb).1, u.isPath.isSpace_eq_false⟩

theorem isUrl_no_control {s : Text} (h : isUrl s) : ∀ b ∈ s, 0x20 ≤ b ∧ b ≠ 0x7f := by
  intro b hb
  simp only [isUrl, Bool.and_eq_true, Bool.not_eq_true', List.any_eq_false] at h
  exact (isControl_eq_false_iff b).mp (Bool.eq_false_iff.mpr (h.2 b hb))

/-! ## Packages -/

/-- There is no control byte among these. -/
theorem of_isPackageByte : ∀ b, isPackageByte b → 0x20 ≤ b ∧ b ≠ 0x7f :=
  Byte.forall_of_lt (by decide +kernel)

theorem IsScope.isPackageByte {w : Text} (h : IsScope w) : ∀ b ∈ w, isPackageByte b := by
  cases h with
  | none => simp
  | scope hb hw =>
    simp only [List.forall_mem_append, List.forall_mem_cons]
    refine ⟨⟨Text.forall_mem_of_all (by decide), ?_, fun b hb => ?_⟩,
      Text.forall_mem_of_all (by decide)⟩
    · simp [Source.isPackageByte, isScopeByte, hb]
    · simp [Source.isPackageByte, hw b hb]

theorem IsName.isPackageByte {w : Text} (h : IsName w) : ∀ b ∈ w, isPackageByte b := by
  cases h with
  | name hb hw =>
    rw [List.forall_mem_cons]
    refine ⟨?_, fun b hb => ?_⟩
    · simp [Source.isPackageByte, isVersionByte, isNameByte, hb]
    · simp [Source.isPackageByte, isVersionByte, hw b hb]

theorem IsVersion.isPackageByte {w : Text} (h : IsVersion w) : ∀ b ∈ w, isPackageByte b := by
  cases h with
  | none => simp
  | version hsign _ hw =>
    rw [List.forall_mem_append]
    refine ⟨?_, fun b hb => ?_⟩
    · rcases hsign with rfl | rfl <;> exact Text.forall_mem_of_all (by decide)
    · simp [Source.isPackageByte, hw b hb]

theorem Package.isPackageByte (p : Package) : ∀ b ∈ p.text, isPackageByte b := by
  simp only [text, List.forall_mem_append]
  exact ⟨⟨p.isScope.isPackageByte, p.isName.isPackageByte⟩, p.isVersion.isPackageByte⟩

theorem Package.no_dash (p : Package) : ¬"-".ascii <+: p.text := by
  obtain ⟨scope, name, version, hscope, ⟨hb, -⟩, -⟩ := p
  rintro ⟨rest, hrest⟩
  cases hscope with
  | none =>
    -- the name comes first, with a letter or a digit
    obtain rfl : '-'.ascii = _ := (List.cons.inj hrest).1
    contradiction
  | scope =>
    have hat : '-'.ascii = '@'.ascii := (List.cons.inj hrest).1
    contradiction

theorem harmlessPackage_of_isPackage {s : Text} (h : isPackage s) : HarmlessPackage s := by
  simp only [isPackage, Bool.and_eq_true, Bool.not_eq_true', decide_eq_true_eq,
    fits_packagePattern_iff] at h
  obtain ⟨⟨hlen, p, rfl⟩, hdots⟩ := h
  refine ⟨hlen, fun hinfix => ?_, p.no_dash, p.isPackageByte, p, rfl⟩
  rw [(Text.occursIn_iff _ _).mpr hinfix] at hdots
  contradiction

/-! ## Descriptors -/

/-- The three ways of being accepted; what contains `://` is a URL whatever it starts with. -/
inductive Accepted (s : Text) : Prop where
  | url (hsep : "://".ascii <:+: s) (hurl : isUrl s)
  | package (hsep : ¬"://".ascii <:+: s) (hstart : "pip:".ascii <+: s ∨ "npm:".ascii <+: s)
    (hpackage : isPackage (s.drop 4))
  | path (hsep : ¬"://".ascii <:+: s) (hstart : ¬("pip:".ascii <+: s ∨ "npm:".ascii <+: s))
    (hne : s ≠ []) (hlen : s.length ≤ 4096) (hcontrol : ∀ b ∈ s, 0x20 ≤ b ∧ b ≠ 0x7f)

theorem accepted_of_check {s : Text} (h : check s = .ok ()) : Accepted s := by
  simp only [check, Text.startsWith, Bool.or_eq_true, List.isPrefixOf_iff_prefix,
    Text.occursIn_iff] at h
  -- A URL, a package or a path, in the order in which the check tries them.
  split at h
  · contradiction
  · rename_i hne
    split at h
    · rename_i hsep
      exact .url hsep ((checkUrl_eq_ok_iff s).mp h)
    · rename_i hsep
      split at h
      · rename_i hstart
        exact .package hsep hstart ((checkPackage_eq_ok_iff _).mp h)
      · rename_i hstart
        split at h
        · contradiction
        · rename_i hlen
          split at h
          · contradiction
          · rename_i hcontrol
            refine .path hsep hstart (fun hnil => hne (by simp [hnil])) (Nat.le_of_not_lt hlen)
              fun b hb => (isControl_eq_false_iff b).mp ?_
            simpa using fun hbad => hcontrol (List.any_eq_true.mpr ⟨b, hb, hbad⟩)

/-- A URL does not start as a package does. -/
theorem HarmlessUrl.not_package {s : Text} (h : HarmlessUrl s) :
    ¬("pip:".ascii <+: s ∨ "npm:".ascii <+: s) := by
  rintro (⟨rest, rfl⟩ | ⟨rest, rfl⟩) <;> rcases h.isHttp with ⟨rest', h⟩ | ⟨rest', h⟩
  all_goals
    have hfirst := (List.cons.inj h).1
    contradiction

example : check "pip:https://pypi.org/x".ascii =
    .error (.invalidUrl "pip:https://pypi.org/x".ascii) := by decide +kernel

/-- Whatever is accepted as a source descriptor is harmless. -/
theorem harmless_of_check {s : Text} (h : check s = .ok ()) : Harmless s := by
  cases accepted_of_check h with
  | url hsep hurl =>
    have hs := harmlessUrl_of_isUrl hurl
    refine ⟨?_, ?_, isUrl_no_control hurl, fun _ => hs, fun hstart => absurd hstart hs.not_package⟩
    · rintro rfl
      simp [String.ascii] at hsep
    · have := hs.length_le
      omega
  | package hsep hstart hpackage =>
    have hs := harmlessPackage_of_isPackage hpackage
    obtain ⟨start, hlen, hcontrol, hbegin⟩ : ∃ start : Text, start.length = 4 ∧
        (∀ b ∈ start, 0x20 ≤ b ∧ b ≠ 0x7f) ∧ start <+: s := by
      rcases hstart with hstart | hstart
      · exact ⟨_, by decide, Text.forall_mem_of_all (by decide), hstart⟩
      · exact ⟨_, by decide, Text.forall_mem_of_all (by decide), hstart⟩
    obtain ⟨name, rfl⟩ := hbegin
    rw [← hlen, List.drop_left] at hs
    refine ⟨?_, ?_, ?_, fun h => absurd h hsep, fun _ => ?_⟩
    · intro hnil
      rw [(List.append_eq_nil_iff.mp hnil).1] at hlen
      contradiction
    · have := hs.length_le
      rw [List.length_append]
      omega
    · rw [List.forall_mem_append]
      exact ⟨hcontrol, fun b hb => of_isPackageByte b (hs.isPackageByte b hb)⟩
    · rwa [← hlen, List.drop_left]
  | path hsep hstart hne hlen hcontrol =>
    exact ⟨hne, hlen, hcontrol, fun h => absurd h hsep, fun h => absurd h hstart⟩

/-- A URL with an at sign in its path, a package with a scope and a version, and a path with a byte
from 128 on. -/
theorem harmless_of_check_url_package_path :
    (check "https://[::1]:8080/@scope/b.tgz".ascii = .ok () ∧
        Harmless "https://[::1]:8080/@scope/b.tgz".ascii) ∧
      (check "npm:@types/node@4.17.21".ascii = .ok () ∧
        Harmless "npm:@types/node@4.17.21".ascii) ∧
      check ("/tmp/caf".ascii ++ [0xe9]) = .ok () ∧ Harmless ("/tmp/caf".ascii ++ [0xe9]) := by
  have hurl : check "https://[::1]:8080/@scope/b.tgz".ascii = .ok () := by decide +kernel
  have hpackage : check "npm:@types/node@4.17.21".ascii = .ok () := by decide +kernel
  have hpath : check ("/tmp/caf".ascii ++ [0xe9]) = .ok () := by decide +kernel
  exact ⟨⟨hurl, harmless_of_check hurl⟩, ⟨hpackage, harmless_of_check hpackage⟩, hpath,
    harmless_of_check hpath⟩

end Source

end Triage
