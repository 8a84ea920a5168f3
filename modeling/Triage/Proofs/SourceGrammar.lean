import Triage.Proofs.Regex.Whole
import Triage.Proofs.Text
import Triage.Source

/-!
What source descriptors are made of.

`Url` and `Package` are the parts of a URL and of a package name with what each part may hold. The
patterns denote expressions that are put together in the same way (`ofPattern?_urlPattern`,
`ofPattern?_packagePattern`), so that reading these part by part shows that the texts that fit a
pattern are the texts of such parts (`fits_urlPattern_iff`, `fits_packagePattern_iff`).
-/

namespace Triage

/-- What can be seen of each of the 256 bytes holds of all. -/
theorem Byte.forall_of_lt {P : UInt8 → Prop} (h : ∀ n < 256, P (UInt8.ofNat n)) (b : UInt8) :
    P b := by
  have hb := h b.toNat b.toNat_lt
  rwa [UInt8.ofNat_toNat] at hb

/-- The bytes of a given text are checked one by one. -/
theorem Text.forall_mem_of_all {P : UInt8 → Prop} [DecidablePred P] {s : Text}
    (h : s.all fun b => P b) : ∀ b ∈ s, P b := by
  simpa using h

namespace Source

/-! ## The parts of a URL -/

/-- A byte of a host name. -/
def isHostByte (b : UInt8) : Bool :=
  Byte.isLetterOrDigit b || b == '.'.ascii || b == '-'.ascii

/-- A byte of an address in brackets. -/
def isAddressByte (b : UInt8) : Bool :=
  ByteClass.xdigit.mem b || b == ':'.ascii || b == '.'.ascii

/-- A host name, or an address in brackets. -/
inductive IsHost : Text → Prop where
  | name {w : Text} (hne : w ≠ []) (hw : ∀ b ∈ w, isHostByte b) : IsHost w
  | address {w : Text} (hne : w ≠ []) (hw : ∀ b ∈ w, isAddressByte b) :
    IsHost ("[".ascii ++ w ++ "]".ascii)

/-- A port of up to five digits after a colon, or nothing. -/
inductive IsPort : Text → Prop where
  | none : IsPort []
  | number {w : Text} (hne : w ≠ []) (hlen : w.length ≤ 5) (hw : ∀ b ∈ w, Byte.isDigit b) :
    IsPort (":".ascii ++ w)

/-- A path, which starts with a slash and holds no white space, or nothing. -/
inductive IsPath : Text → Prop where
  | none : IsPath []
  | rooted {w : Text} (hw : ∀ b ∈ w, Byte.isSpace b = false) : IsPath ("/".ascii ++ w)

/-- The parts of a URL. -/
structure Url where
  scheme : Text
  host : Text
  port : Text
  path : Text
  isScheme : scheme = "http".ascii ∨ scheme = "https".ascii
  isHost : IsHost host
  isPort : IsPort port
  isPath : IsPath path

namespace Url

/-- The host and the port. -/
def authority (u : Url) : Text := u.host ++ u.port

/-- What stands before the path. -/
def front (u : Url) : Text := u.scheme ++ "://".ascii ++ u.authority

def text (u : Url) : Text := u.front ++ u.path

theorem text_eq (u : Url) :
    u.text = u.scheme ++ ("://".ascii ++ (u.host ++ (u.port ++ u.path))) := by
  simp only [text, front, authority, List.append_assoc]

end Url

/-! ## The bytes of a URL -/

/-- A byte of a host or a port. -/
def isAuthorityByte (b : UInt8) : Bool :=
  isHostByte b || isAddressByte b || ":[]".ascii.contains b

/-- There is no white space, no at sign and no slash among these bytes. -/
theorem of_isAuthorityByte : ∀ b, isAuthorityByte b →
    Byte.isSpace b = false ∧ b ≠ '@'.ascii ∧ b ≠ Byte.slash :=
  Byte.forall_of_lt (by decide +kernel)

theorem IsHost.ne_nil {w : Text} (h : IsHost w) : w ≠ [] := by
  cases h with
  | name hne => exact hne
  | address => exact List.append_ne_nil_of_right_ne_nil _ (List.cons_ne_nil _ _)

theorem IsHost.isAuthorityByte {w : Text} (h : IsHost w) : ∀ b ∈ w, isAuthorityByte b := by
  cases h with
  | name _ hw =>
    intro b hb
    simp [Source.isAuthorityByte, hw b hb]
  | address _ hw =>
    simp only [List.forall_mem_append]
    refine ⟨⟨Text.forall_mem_of_all (by decide), fun b hb => ?_⟩,
      Text.forall_mem_of_all (by decide)⟩
    simp [Source.isAuthorityByte, hw b hb]

theorem IsPort.isAuthorityByte {w : Text} (h : IsPort w) : ∀ b ∈ w, isAuthorityByte b := by
  cases h with
  | none => simp
  | number _ _ hw =>
    rw [List.forall_mem_append]
    refine ⟨Text.forall_mem_of_all (by decide), fun b hb => ?_⟩
    simp [Source.isAuthorityByte, isHostByte, Byte.isLetterOrDigit, hw b hb]

theorem IsPath.isSpace_eq_false {w : Text} (h : IsPath w) : ∀ b ∈ w, Byte.isSpace b = false := by
  cases h with
  | none => simp
  | rooted hw =>
    rw [List.forall_mem_append]
    exact ⟨Text.forall_mem_of_all (by decide), hw⟩

namespace Url

theorem authority_ne_nil (u : Url) : u.authority ≠ [] :=
  List.append_ne_nil_of_left_ne_nil u.isHost.ne_nil _

theorem isAuthorityByte (u : Url) : ∀ b ∈ u.authority, isAuthorityByte b := by
  rw [authority, List.forall_mem_append]
  exact ⟨u.isHost.isAuthorityByte, u.isPort.isAuthorityByte⟩

end Url

/-! ## The parts of a package name -/

/-- A lower-case letter or a digit: what a scope starts with. -/
def isScopeStart (b : UInt8) : Bool := Byte.isDigit b || Byte.isLower b

def isScopeByte (b : UInt8) : Bool :=
  isScopeStart b || b == '.'.ascii || b == '_'.ascii || b == '-'.ascii || b == '~'.ascii

def isNameByte (b : UInt8) : Bool :=
  Byte.isLetterOrDigit b || b == '.'.ascii || b == '_'.ascii || b == '-'.ascii

def isVersionByte (b : UInt8) : Bool :=
  isNameByte b || b == '+'.ascii || b == '!'.ascii

/-- A scope between an at sign and a slash, or nothing. -/
inductive IsScope : Text → Prop where
  | none : IsScope []
  | scope {b : UInt8} {w : Text} (hb : isScopeStart b) (hw : ∀ b ∈ w, isScopeByte b) :
    IsScope ("@".ascii ++ b :: w ++ "/".ascii)

/-- A name starts with a letter or a digit. -/
inductive IsName : Text → Prop where
  | name {b : UInt8} {w : Text} (hb : Byte.isLetterOrDigit b) (hw : ∀ b ∈ w, isNameByte b) :
    IsName (b :: w)

/-- A version after two equals signs or an at sign, or nothing. -/
inductive IsVersion : Text → Prop where
  | none : IsVersion []
  | version {sign w : Text} (hsign : sign = "==".ascii ∨ sign = "@".ascii) (hne : w ≠ [])
    (hw : ∀ b ∈ w, isVersionByte b) : IsVersion (sign ++ w)

/-- The parts of a package name. -/
structure Package where
  scope : Text
  name : Text
  version : Text
  isScope : IsScope scope
  isName : IsName name
  isVersion : IsVersion version

def Package.text (p : Package) : Text := p.scope ++ p.name ++ p.version

/-! ## The sets of the patterns -/

def hostSet : ByteSet :=
  ⟨false, [.one '-'.ascii, .one '.'.ascii, .span '0'.ascii '9'.ascii, .span 'a'.ascii 'z'.ascii,
    .span 'A'.ascii 'Z'.ascii]⟩

def addressSet : ByteSet :=
  ⟨false, [.one '.'.ascii, .one ':'.ascii, .span 'a'.ascii 'f'.ascii, .span 'A'.ascii 'F'.ascii,
    .span '0'.ascii '9'.ascii]⟩

def digitSet : ByteSet := ⟨false, [.span '0'.ascii '9'.ascii]⟩

/-- Whatever is no white space. -/
def pathSet : ByteSet := ⟨true, [.named .space]⟩

def scopeStartSet : ByteSet :=
  ⟨false, [.span '0'.ascii '9'.ascii, .span 'a'.ascii 'z'.ascii]⟩

def scopeSet : ByteSet :=
  ⟨false, [.one '~'.ascii, .one '-'.ascii, .one '_'.ascii, .one '.'.ascii,
    .span '0'.ascii '9'.ascii, .span 'a'.ascii 'z'.ascii]⟩

def nameStartSet : ByteSet :=
  ⟨false, [.span '0'.ascii '9'.ascii, .span 'a'.ascii 'z'.ascii, .span 'A'.ascii 'Z'.ascii]⟩

def nameSet : ByteSet :=
  ⟨false, [.one '-'.ascii, .one '_'.ascii, .one '.'.ascii, .span '0'.ascii '9'.ascii,
    .span 'a'.ascii 'z'.ascii, .span 'A'.ascii 'Z'.ascii]⟩

def versionSet : ByteSet :=
  ⟨false, [.one '!'.ascii, .one '+'.ascii, .one '-'.ascii, .one '_'.ascii, .one '.'.ascii,
    .span '0'.ascii '9'.ascii, .span 'a'.ascii 'z'.ascii, .span 'A'.ascii 'Z'.ascii]⟩

/-- The sets, with the classes that they stand for. -/
def classes : List (ByteSet × (UInt8 → Bool)) :=
  [(hostSet, isHostByte), (addressSet, isAddressByte), (digitSet, Byte.isDigit),
    (pathSet, fun b => !Byte.isSpace b), (scopeStartSet, isScopeStart), (scopeSet, isScopeByte),
    (nameStartSet, Byte.isLetterOrDigit), (nameSet, isNameByte), (versionSet, isVersionByte)]

theorem mem_eq {set : ByteSet} {p : UInt8 → Bool} (h : (set, p) ∈ classes) (b : UInt8) :
    set.mem b = p b := by
  have hall : ∀ b, (classes.all fun c => c.1.mem b == c.2 b) = true :=
    Byte.forall_of_lt (by decide +kernel)
  exact beq_iff_eq.mp (List.all_eq_true.mp (hall b) (set, p) h)

/-! ## The expression for URLs -/

section

open Regex

def schemeRegex : Regex :=
  .group 1 (literals "http".ascii
    (.seq (.opt 0 true (.byte (.literal false 's'.ascii))) .empty))

def hostRegex : Regex :=
  .group 2 (.alt (.seq (oneOrMore 1 hostSet) .empty)
    (literals "[".ascii (.seq (oneOrMore 2 addressSet) (literals "]".ascii .empty))))

def portRegex : Regex :=
  .opt 7 true (.group 3 (literals ":".ascii (.seq (oneAndUpTo digitSet [3, 4, 5, 6]) .empty)))

def pathRegex : Regex :=
  .opt 9 true (.group 4 (literals "/".ascii (.seq (.star 8 true (.byte pathSet)) .empty)))

def urlRegex : Regex :=
  .seq .lineStart (.seq schemeRegex (literals "://".ascii
    (.seq hostRegex (.seq portRegex (.seq pathRegex (.seq .lineEnd .empty))))))

theorem ofPattern?_urlPattern : Regex.ofPattern? false urlPattern = some urlRegex := by
  decide +kernel

theorem spells_schemeRegex :
    Spells schemeRegex fun w => w = "http".ascii ∨ w = "https".ascii := by
  refine ((((spells_literal _).opt 0 true).seq_empty.literals _).group 1).congr fun w => ?_
  constructor
  · rintro ⟨-, rfl | rfl, rfl⟩
    · exact Or.inl rfl
    · exact Or.inr rfl
  · rintro (rfl | rfl)
    · exact ⟨[], Or.inl rfl, rfl⟩
    · exact ⟨['s'.ascii], Or.inr rfl, rfl⟩

theorem spells_hostRegex : Spells hostRegex IsHost := by
  have hname : ∀ b, hostSet.mem b = isHostByte b := mem_eq (by simp [classes])
  have haddress : ∀ b, addressSet.mem b = isAddressByte b := mem_eq (by simp [classes])
  refine (((spells_oneOrMore 1 hostSet).seq_empty.alt (((spells_oneOrMore 2 addressSet).seq
    (spells_literals "]".ascii)).literals "[".ascii)).group 2).congr fun w => ?_
  simp only [hname, haddress]
  constructor
  · rintro (⟨hne, hw⟩ | ⟨-, ⟨w, ⟨hne, hw⟩, -, rfl, rfl⟩, rfl⟩)
    · exact .name hne hw
    · exact .address hne hw
  · rintro (⟨hne, hw⟩ | ⟨hne, hw⟩)
    · exact Or.inl ⟨hne, hw⟩
    · exact Or.inr ⟨_, ⟨_, ⟨hne, hw⟩, _, rfl, rfl⟩, rfl⟩

theorem spells_portRegex : Spells portRegex IsPort := by
  have hdigit : ∀ b, digitSet.mem b = Byte.isDigit b := mem_eq (by simp [classes])
  refine ((((spells_oneAndUpTo digitSet [3, 4, 5, 6]).seq_empty.literals ":".ascii).group 3).opt 7
    true).congr fun w => ?_
  simp only [hdigit]
  constructor
  · rintro (rfl | ⟨w, ⟨hne, hlen, hw⟩, rfl⟩)
    · exact .none
    · exact .number hne hlen hw
  · rintro (_ | ⟨hne, hlen, hw⟩)
    · exact Or.inl rfl
    · exact Or.inr ⟨_, ⟨hne, hlen, hw⟩, rfl⟩

theorem spells_pathRegex : Spells pathRegex IsPath := by
  have hpath : ∀ b, pathSet.mem b = !Byte.isSpace b := mem_eq (by simp [classes])
  refine ((((spells_star_byte 8 true pathSet).seq_empty.literals "/".ascii).group 4).opt 9
    true).congr fun w => ?_
  simp only [hpath, Bool.not_eq_true']
  constructor
  · rintro (rfl | ⟨w, hw, rfl⟩)
    · exact .none
    · exact .rooted hw
  · rintro (_ | hw)
    · exact Or.inl rfl
    · exact Or.inr ⟨_, hw, rfl⟩

theorem fits_urlPattern_iff (s : Text) : fits urlPattern s ↔ ∃ u : Url, u.text = s := by
  have hplain : urlRegex.isPlain := by decide
  rw [fits, ofPattern?_urlPattern, Option.any_some, acceptsWhole_iff hplain, urlRegex,
    spans_lineStart, spells_schemeRegex.spans_seq]
  simp only [spans_literals, spells_hostRegex.spans_seq, spells_portRegex.spans_seq,
    spells_pathRegex.spans_seq, spans_lineEnd, and_true]
  constructor
  · rintro ⟨scheme, hscheme, -, rfl, -, rfl, host, hhost, -, rfl, port, hport, -, rfl, path, hpath,
      -, rfl, rfl⟩
    refine ⟨⟨scheme, host, port, path, hscheme, hhost, hport, hpath⟩, ?_⟩
    rw [Url.text_eq, List.append_nil]
  · rintro ⟨u, rfl⟩
    exact ⟨u.scheme, u.isScheme, _, u.text_eq, _, rfl, u.host, u.isHost, _, rfl, u.port, u.isPort,
      _, rfl, u.path, u.isPath, [], (List.append_nil _).symm, rfl⟩

/-! ## The expression for package names -/

def scopeRegex : Regex :=
  .opt 1 true (.group 1 (literals "@".ascii
    (.seq (.byte scopeStartSet) (.seq (.star 0 true (.byte scopeSet))
      (literals "/".ascii .empty)))))

def versionRegex : Regex :=
  .opt 4 true (.group 2 (.seq
    (.group 3 (.alt (literals "==".ascii .empty) (literals "@".ascii .empty)))
    (.seq (oneOrMore 3 versionSet) .empty)))

def packageRegex : Regex :=
  .seq .lineStart (.seq scopeRegex (.seq (.byte nameStartSet) (.seq (.star 2 true (.byte nameSet))
    (.seq versionRegex (.seq .lineEnd .empty)))))

theorem ofPattern?_packagePattern : Regex.ofPattern? false packagePattern = some packageRegex := by
  decide +kernel

theorem spells_scopeRegex : Spells scopeRegex IsScope := by
  have hfirst : ∀ b, scopeStartSet.mem b = isScopeStart b := mem_eq (by simp [classes])
  have hlater : ∀ b, scopeSet.mem b = isScopeByte b := mem_eq (by simp [classes])
  refine (((((spells_byte scopeStartSet).seq ((spells_star_byte 0 true scopeSet).seq
    (spells_literals "/".ascii))).literals "@".ascii).group 1).opt 1 true).congr fun w => ?_
  simp only [hfirst, hlater]
  constructor
  · rintro (rfl | ⟨-, ⟨-, ⟨b, hb, rfl⟩, -, ⟨w, hw, -, rfl, rfl⟩, rfl⟩, rfl⟩)
    · exact .none
    · exact .scope hb hw
  · rintro (_ | ⟨hb, hw⟩)
    · exact Or.inl rfl
    · exact Or.inr ⟨_, ⟨_, ⟨_, hb, rfl⟩, _, ⟨_, hw, _, rfl, rfl⟩, rfl⟩, rfl⟩

theorem spells_versionRegex : Spells versionRegex IsVersion := by
  have hversion : ∀ b, versionSet.mem b = isVersionByte b := mem_eq (by simp [classes])
  refine ((((((spells_literals "==".ascii).alt (spells_literals "@".ascii)).group 3).seq
    (spells_oneOrMore 3 versionSet).seq_empty).group 2).opt 4 true).congr fun w => ?_
  simp only [hversion]
  constructor
  · rintro (rfl | ⟨sign, hsign, w, ⟨hne, hw⟩, rfl⟩)
    · exact .none
    · exact .version hsign hne hw
  · rintro (_ | ⟨hsign, hne, hw⟩)
    · exact Or.inl rfl
    · exact Or.inr ⟨_, hsign, _, ⟨hne, hw⟩, rfl⟩

theorem fits_packagePattern_iff (s : Text) :
    fits packagePattern s ↔ ∃ p : Package, p.text = s := by
  have hplain : packageRegex.isPlain := by decide
  have hfirst : ∀ b, nameStartSet.mem b = Byte.isLetterOrDigit b := mem_eq (by simp [classes])
  have hlater : ∀ b, nameSet.mem b = isNameByte b := mem_eq (by simp [classes])
  rw [fits, ofPattern?_packagePattern, Option.any_some, acceptsWhole_iff hplain, packageRegex,
    spans_lineStart, spells_scopeRegex.spans_seq]
  simp only [(spells_byte nameStartSet).spans_seq, (spells_star_byte 2 true nameSet).spans_seq,
    spells_versionRegex.spans_seq, spans_lineEnd, and_true, hfirst, hlater]
  constructor
  · rintro ⟨scope, hscope, -, rfl, -, ⟨b, hb, rfl⟩, -, rfl, name, hname, -, rfl, version, hversion,
      -, rfl, rfl⟩
    exact ⟨⟨scope, b :: name, version, hscope, .name hb hname, hversion⟩, by simp [Package.text]⟩
  · rintro ⟨⟨scope, name, version, hscope, ⟨hb, hname⟩, hversion⟩, rfl⟩
    exact ⟨scope, hscope, _, by simp [Package.text], _, ⟨_, hb, rfl⟩, _, rfl, _, hname, _, rfl,
      version, hversion, [], (List.append_nil _).symm, rfl⟩

end

/-! ## The checks -/

theorem checkUrl_eq_ok_iff (s : Text) : checkUrl s = .ok () ↔ isUrl s := by
  rw [checkUrl]
  split <;> simp [*]

theorem checkPackage_eq_ok_iff (s : Text) : checkPackage s = .ok () ↔ isPackage s := by
  rw [checkPackage]
  split <;> simp [*]

end Source

end Triage
