import Triage.Proofs.ExitStatus

/-!
What can be relied on once a command line is parsed.

Parsing ends with a result or with an error of usage, and with no other error: what goes wrong while
a number is read is caught where options take integers (`onlyRefuses_integerFor`), and all other
parts of parsing only refuse (`onlyRefuses_interpretWords`). A command that is to be run has as many
arguments as it takes (`complete_of_interpretWords`), so it never asks for one that is not there
(`Invocation.Complete.neverLacks_run`).
-/

namespace Triage

/-! ## Errors of usage -/

namespace Parsing

variable {α β : Type}

theorem run_bind (p : Parsing α) (next : α → Parsing β) (s : Settings) :
    (p >>= next).run.run s =
      match p.run.run s with
      | (.ok a, s') => (next a).run.run s'
      | (.error e, s') => (.error e, s') := by
  rw [ExceptT.run_bind, StateT.run_bind]
  cases p.run.run s with
  | mk outcome s' => cases outcome <;> rfl

/-- A part of parsing that ends with no error but one of usage. -/
def OnlyRefuses (p : Parsing α) : Prop :=
  ∀ s s' e, p.run.run s = (.error e, s') → ∃ cause, e = .usage cause

theorem onlyRefuses_pure (a : α) : OnlyRefuses (pure a) := by
  intro s s' e h
  cases h

theorem onlyRefuses_get : OnlyRefuses get := by
  intro s s' e h
  cases h

theorem onlyRefuses_refuse (cause : UsageError) : OnlyRefuses (refuse cause : Parsing α) := by
  intro s s' e h
  cases h
  exact ⟨cause, rfl⟩

theorem onlyRefuses_setConfig (f : Config → Config) : OnlyRefuses (setConfig f) := by
  intro s s' e h
  cases h

theorem onlyRefuses_setInvocation (f : Invocation → Invocation) :
    OnlyRefuses (setInvocation f) := by
  intro s s' e h
  cases h

theorem OnlyRefuses.bind {p : Parsing α} {next : α → Parsing β} (hp : OnlyRefuses p)
    (hnext : ∀ a, OnlyRefuses (next a)) : OnlyRefuses (p >>= next) := by
  intro s s' e h
  rw [run_bind] at h
  cases hrun : p.run.run s with
  | mk outcome between =>
    rw [hrun] at h
    cases outcome with
    | error first =>
      cases h
      exact hp s _ _ hrun
    | ok a => exact hnext a between s' e h

end Parsing

/-- An option that ends parsing with no error but one of usage, whatever its value. -/
def OptionEffect.OnlyRefuses : OptionEffect → Prop
  | flag apply => Parsing.OnlyRefuses apply
  | value apply => ∀ value, Parsing.OnlyRefuses (apply value)

namespace CommandLine

open Parsing

/-- Neither a value without digits nor one out of range gets past the option that it is for. -/
theorem onlyRefuses_integerFor (option : String) (value : Text) :
    OnlyRefuses (integerFor option value) := by
  intro s s' e h
  have hrefuse : (refuse (.invalidInteger option.ascii value) : Parsing Int).run.run s =
      (.error e, s') → ∃ cause, e = .usage cause := onlyRefuses_refuse _ s s' e
  unfold integerFor wholeInteger at h
  cases hread : leadingInteger value with
  | error problem =>
    rw [hread] at h
    exact hrefuse h
  | ok found =>
    obtain ⟨n, rest⟩ := found
    simp only [hread] at h
    split at h
    · cases h
    · exact hrefuse h

theorem onlyRefuses_addPhases (names : List Text) : OnlyRefuses (addPhases names) := by
  induction names with
  | nil => exact onlyRefuses_pure ()
  | cons name rest ih =>
    rw [addPhases]
    split
    · exact onlyRefuses_setConfig _
    · split
      · exact (onlyRefuses_setConfig _).bind fun _ => ih
      · exact onlyRefuses_refuse _

theorem onlyRefuses_integer (name : String) {apply : Int → Parsing Unit}
    (h : ∀ n, OnlyRefuses (apply n)) : (integer name apply).effect.OnlyRefuses := fun value =>
  (onlyRefuses_integerFor name value).bind h

theorem onlyRefuses_option {o : CommandOption} (ho : o ∈ options) : o.effect.OnlyRefuses := by
  have hset (f : Config → Config) : OnlyRefuses (setConfig f) := onlyRefuses_setConfig f
  have hinvoke (f : Invocation → Invocation) : OnlyRefuses (setInvocation f) :=
    onlyRefuses_setInvocation f
  have hphases (value : Text) : OnlyRefuses (do
      setConfig fun c => { c with phases := [] }
      addPhases (Text.splitCommas value)) := (hset _).bind fun _ => onlyRefuses_addPhases _
  have hlimit (n : Int) : OnlyRefuses (if n ≤ 0 then refuse .fileLimitNotPositive
      else setConfig fun c => { c with maxFileBytes := n.toNat }) := by
    split
    · exact onlyRefuses_refuse _
    · exact hset _
  revert o
  simp only [options, List.forall_mem_cons, List.not_mem_nil, false_implies, implies_true, and_true]
  exact ⟨fun _ => hset _, hset _, hset _, hphases, fun _ => hset _, fun _ => hset _, fun _ => hset
    _, fun _ => hset _, onlyRefuses_integer _ fun _ => hset _, onlyRefuses_integer _ fun _ => hset
    _, onlyRefuses_integer _ hlimit, fun _ => hset _, onlyRefuses_integer _ fun _ => hset _, hset
    _, hset _, hset _, fun _ => hset _, fun _ => hinvoke _, hinvoke _, fun _ => hinvoke _, fun _ =>
    hinvoke _, fun _ => hinvoke _, hinvoke _, hinvoke _, hinvoke _⟩

theorem onlyRefuses_effect {name : Text} {effect : OptionEffect} (h : effect? name = some effect) :
    effect.OnlyRefuses := by
  obtain ⟨o, ho, rfl⟩ := Option.map_eq_some_iff.mp h
  exact onlyRefuses_option (List.mem_of_find?_eq_some ho)

theorem onlyRefuses_read : ∀ words, OnlyRefuses (read words)
  | [] => onlyRefuses_pure _
  | word :: rest => by
    have ih := onlyRefuses_read rest
    rw [read]
    split
    · exact ih.bind fun _ => onlyRefuses_pure _
    · exact onlyRefuses_pure _
    · exact onlyRefuses_pure _
    · exact onlyRefuses_pure _
    · exact (onlyRefuses_setInvocation _).bind fun _ => ih
    · split
      · exact onlyRefuses_refuse _
      · exact onlyRefuses_refuse _
      · next apply heffect _ =>
        have happly : OnlyRefuses apply := onlyRefuses_effect heffect
        exact happly.bind fun _ => ih
      · next apply value heffect _ =>
        have happly : ∀ value, OnlyRefuses (apply value) := onlyRefuses_effect heffect
        exact (happly value).bind fun _ => ih
      · next apply heffect _ =>
        have happly : ∀ value, OnlyRefuses (apply value) := onlyRefuses_effect heffect
        cases rest with
        | nil => exact onlyRefuses_refuse _
        | cons value rest => exact (happly value).bind fun _ => onlyRefuses_read rest

theorem onlyRefuses_checkArguments (command : Command) (args : List Text) :
    OnlyRefuses (checkArguments command args) := by
  rw [checkArguments]
  split
  · exact onlyRefuses_pure _
  · exact onlyRefuses_refuse _

theorem onlyRefuses_takeCommand (command : Command) (args : List Text) :
    OnlyRefuses (takeCommand command args) :=
  (onlyRefuses_checkArguments command args).bind fun _ => onlyRefuses_setInvocation _

theorem onlyRefuses_configCommand (words : List Text) : OnlyRefuses (configCommand words) := by
  cases words with
  | nil => exact onlyRefuses_setInvocation _
  | cons action args =>
    rw [configCommand]
    split
    · exact (onlyRefuses_setInvocation _).bind fun _ =>
        (onlyRefuses_checkArguments _ _).bind fun _ => onlyRefuses_setInvocation _
    split
    · exact onlyRefuses_takeCommand _ _
    split
    · exact onlyRefuses_takeCommand _ _
    · exact onlyRefuses_refuse _

theorem onlyRefuses_simpleCommand (word : Text) (args : List Text) :
    OnlyRefuses (simpleCommand word args) := by
  rw [simpleCommand]
  split
  · exact onlyRefuses_refuse _
  · refine (onlyRefuses_takeCommand _ _).bind fun _ => onlyRefuses_get.bind fun s => ?_
    split
    · exact onlyRefuses_refuse _
    · exact onlyRefuses_pure _

theorem onlyRefuses_conclude (reading : Reading) : OnlyRefuses (conclude reading) := by
  cases reading with
  | shown output => exact onlyRefuses_pure _
  | positional words =>
    cases words with
    | nil => exact onlyRefuses_pure _
    | cons word args =>
      have hchoose : OnlyRefuses (chooseCommand word args) := by
        rw [chooseCommand]
        split
        · exact onlyRefuses_configCommand args
        · exact onlyRefuses_simpleCommand word args
      exact hchoose.bind fun _ => onlyRefuses_pure _

theorem onlyRefuses_interpretWords (words : List Text) : OnlyRefuses (interpretWords words) :=
  (onlyRefuses_read _).bind onlyRefuses_conclude

end CommandLine

/-! ## Commands with all their arguments -/

theorem Command.arity_scan : Command.scan.arity = (1, 256) := rfl

/-- A command that can be run: it has as many arguments as it takes, and a comparison has something
to compare with. -/
structure Invocation.Complete (i : Invocation) : Prop where
  command_ne : i.command ≠ .none
  least_le : i.command.arity.1 ≤ i.args.length
  le_most : i.args.length ≤ i.command.arity.2
  baseline_ne : i.command = .diff → i.baseline ≠ []

namespace CommandLine

open Parsing

theorem run_takeCommand (command : Command) (args : List Text) (s : Settings) :
    (takeCommand command args).run.run s =
      if command.arity.1 ≤ args.length && args.length ≤ command.arity.2 then
        (.ok (), s.withInvocation fun i => { i with command, args })
      else (.error (.usage (.wrongArguments command)), s) := by
  rw [takeCommand, checkArguments]
  split <;> rfl

/-- Whoever has passed the check of the arguments has a complete command. -/
theorem complete_of_takeCommand {command : Command} {args : List Text} {s s' : Settings}
    (h : (takeCommand command args).run.run s = (.ok (), s')) (hcommand : command ≠ .none)
    (hbaseline : command = .diff → s'.invocation.baseline ≠ []) : s'.invocation.Complete := by
  rw [run_takeCommand] at h
  split at h
  · next harity =>
    cases h
    simp only [Bool.and_eq_true, decide_eq_true_eq] at harity
    exact ⟨hcommand, harity.1, harity.2, hbaseline⟩
  · cases h

theorem complete_of_configCommand {words : List Text} {s s' : Settings}
    (h : (configCommand words).run.run s = (.ok (), s')) : s'.invocation.Complete := by
  have hlist {i : Invocation} (hcommand : i.command = .configList) (hargs : i.args = []) :
      i.Complete := by
    constructor <;> simp [hcommand, hargs, Command.arity]
  cases words with
  | nil =>
    cases h
    exact hlist rfl rfl
  | cons action args =>
    rw [configCommand] at h
    split at h
    · rw [checkArguments] at h
      split at h
      · cases h
        exact hlist rfl rfl
      · cases h
    split at h
    · exact complete_of_takeCommand h (by decide) (by simp)
    split at h
    · exact complete_of_takeCommand h (by decide) (by simp)
    · cases h

theorem complete_of_simpleCommand {word : Text} {args : List Text} {s s' : Settings}
    (h : (simpleCommand word args).run.run s = (.ok (), s')) : s'.invocation.Complete := by
  rw [simpleCommand] at h
  split at h
  · cases h
  next command hfind =>
  -- No word stands for the command `none`.
  have hcommand : command ≠ .none := by
    have hmem := List.mem_of_find?_eq_some hfind
    rintro rfl
    revert hmem
    decide
  rw [run_bind] at h
  cases htake : (takeCommand command args).run.run s with
  | mk outcome between =>
    rw [htake] at h
    cases outcome with
    | error e => cases h
    | ok _ =>
      have hget : (get : Parsing Settings).run.run between = (.ok between, between) := rfl
      simp only [run_bind, hget] at h
      split at h
      · cases h
      · next hbaseline =>
        cases h
        exact complete_of_takeCommand htake hcommand fun hdiff => by simpa [hdiff] using hbaseline

/-- If a command is to be run, it is complete. -/
theorem complete_of_interpretWords {words : List Text} {s s' : Settings}
    (h : (interpretWords words).run.run s = (.ok none, s')) : s'.invocation.Complete := by
  rw [interpretWords, run_bind] at h
  split at h
  · next reading between _ =>
    match reading with
    | .shown output => cases h
    | .positional [] => cases h
    | .positional (word :: args) =>
      rw [conclude, run_bind] at h
      split at h
      · next hchoose =>
        cases h
        rw [chooseCommand] at hchoose
        split at hchoose
        · exact complete_of_configCommand hchoose
        · exact complete_of_simpleCommand hchoose
      · cases h
  · cases h

end CommandLine

/-! ## Arguments that are there -/

namespace Action

variable {α β : Type}

/-- An action that does not fail for want of an argument. -/
def NeverLacks (a : Action α) : Prop :=
  ∀ session index, (a.run.run session).1 ≠ .error (.noArgument index)

theorem neverLacks_of_ok {a : Action α}
    (h : ∀ session, ∃ value session', a.run.run session = (.ok value, session')) :
    NeverLacks a := by
  intro session index
  obtain ⟨value, session', hrun⟩ := h session
  simp [hrun]

theorem neverLacks_pure (value : α) : NeverLacks (pure value) :=
  neverLacks_of_ok fun session => ⟨value, session, rfl⟩

theorem neverLacks_modify (f : Session → Session) : NeverLacks (modify f) :=
  neverLacks_of_ok fun session => ⟨(), f session, rfl⟩

theorem neverLacks_get : NeverLacks get := neverLacks_of_ok fun session => ⟨session, session, rfl⟩

theorem neverLacks_throw {failure : Failure} (h : ∀ index, failure ≠ .noArgument index) :
    NeverLacks (throw failure : Action α) := by
  intro session index hlacks
  exact h index (Except.error.inj hlacks)

theorem neverLacks_ofExcept {ε : Type} {meaning : ε → Failure}
    (h : ∀ e index, meaning e ≠ .noArgument index) (outcome : Except ε α) :
    NeverLacks (ofExcept meaning outcome) := by
  cases outcome with
  | ok value => exact neverLacks_pure value
  | error e => exact neverLacks_throw (h e)

theorem NeverLacks.bind {a : Action α} {next : α → Action β} (ha : NeverLacks a)
    (hnext : ∀ value, NeverLacks (next value)) : NeverLacks (a >>= next) := by
  intro session index
  cases hrun : a.run.run session with
  | mk outcome between =>
    cases outcome with
    | ok value =>
      rw [run_bind_ok hrun]
      exact hnext value between index
    | error failure =>
      have hstop : (a >>= next).run.run session = (.error failure, between) := by
        rw [ExceptT.run_bind, StateT.run_bind, hrun]
        rfl
      have hfailure : failure ≠ .noArgument index := by
        have hne := ha session index
        rw [hrun] at hne
        exact fun heq => hne (congrArg Except.error heq)
      rw [hstop]
      exact fun heq => hfailure (Except.error.inj heq)

theorem NeverLacks.mapM {f : α → Action β} (hf : ∀ a, NeverLacks (f a)) (as : List α) :
    NeverLacks (as.mapM f) := by
  induction as with
  | nil => exact neverLacks_pure []
  | cons a as ih =>
    rw [List.mapM_cons]
    exact (hf a).bind fun _ => ih.bind fun _ => neverLacks_pure _

theorem neverLacks_files : NeverLacks files := neverLacks_get.bind fun _ => neverLacks_pure _

theorem neverLacks_attempt (operation : Quarantine.Attempt α) : NeverLacks (attempt operation) :=
  neverLacks_files.bind fun _ => (neverLacks_modify _).bind fun _ =>
    neverLacks_ofExcept (by simp) _

theorem neverLacks_approve (q : Quarantine) (id : Text) : NeverLacks (approve q id) :=
  (neverLacks_attempt _).bind fun _ => neverLacks_modify _

theorem neverLacks_nextMark : NeverLacks nextMark :=
  neverLacks_of_ok fun _ => ⟨_, _, rfl⟩

theorem neverLacks_reject (q : Quarantine) (id : Text) : NeverLacks (reject q id) :=
  (neverLacks_attempt _).bind fun _ => neverLacks_nextMark.bind fun _ =>
    (neverLacks_attempt _).bind fun _ => neverLacks_modify _

theorem neverLacks_create (q : Quarantine) (descriptor path : Text) :
    NeverLacks (create q descriptor path) :=
  neverLacks_get.bind fun _ => (neverLacks_attempt _).bind fun _ =>
    (neverLacks_modify _).bind fun _ => neverLacks_pure _

end Action

namespace Commands

open Triage.Action

theorem neverLacks_scanTargets (c : Config) (targets : List ScanTarget) :
    NeverLacks (scanTargets c targets) :=
  neverLacks_of_ok fun session => by
    obtain ⟨session', h⟩ := scanTargets_status c targets session
    exact ⟨_, session', h⟩

theorem neverLacks_target (c : Config) (word : Text) : NeverLacks (target c word) :=
  neverLacks_files.bind fun _ => neverLacks_ofExcept (by simp) _

/-- An argument is there if its index is less than the number of arguments. -/
theorem neverLacks_argument {i : Invocation} {index : Nat} (h : index < i.args.length) :
    NeverLacks (argument i index) := by
  rw [argument, List.getElem?_eq_getElem h]
  exact neverLacks_pure _

theorem neverLacks_checkSetting (key : Text) : NeverLacks (checkSetting key) := by
  rw [checkSetting]
  split
  · exact neverLacks_pure ()
  · exact neverLacks_throw (by simp)

section OneArgument

variable {i : Invocation} (hargs : 0 < i.args.length)

include hargs

theorem neverLacks_add (c : Config) : NeverLacks (add c i) := by
  refine (neverLacks_argument hargs).bind fun path => (neverLacks_create _ _ _).bind fun id =>
    (neverLacks_modify _).bind fun _ => ?_
  split
  · exact neverLacks_pure 0
  · exact neverLacks_files.bind fun _ => (neverLacks_ofExcept (by simp) _).bind fun _ =>
      neverLacks_scanTargets c _

theorem neverLacks_settle (done : String) {move : Text → Action Unit}
    (hmove : ∀ id, NeverLacks (move id)) : NeverLacks (settle i done move) :=
  (neverLacks_argument hargs).bind fun id => (hmove id).bind fun _ => neverLacks_modify _

theorem neverLacks_compare (c : Config) : NeverLacks (compare c i) :=
  neverLacks_files.bind fun _ => neverLacks_get.bind fun _ =>
    (neverLacks_ofExcept (by simp) _).bind fun _ =>
      (neverLacks_argument hargs).bind fun word => (neverLacks_target c word).bind fun _ =>
        neverLacks_get.bind fun _ => (neverLacks_modify _).bind fun _ =>
          (neverLacks_ofExcept (by simp) _).bind fun _ => (neverLacks_modify _).bind fun _ =>
            neverLacks_pure _

theorem neverLacks_getSetting : NeverLacks (getSetting i) :=
  (neverLacks_argument hargs).bind fun key => (neverLacks_checkSetting key).bind fun _ =>
    neverLacks_throw (by simp)

end OneArgument

theorem neverLacks_setSetting {i : Invocation} (hargs : 1 < i.args.length) :
    NeverLacks (setSetting i) :=
  (neverLacks_argument (Nat.lt_of_succ_lt hargs)).bind fun key =>
    (neverLacks_argument hargs).bind fun _ => (neverLacks_checkSetting key).bind fun _ =>
      neverLacks_throw (by simp)

theorem neverLacks_prompt (label : String) : NeverLacks (prompt label) :=
  neverLacks_of_ok fun _ => ⟨_, _, rfl⟩

theorem neverLacks_knownOrAsked (known : Text) (label : String) :
    NeverLacks (knownOrAsked known label) := by
  rw [knownOrAsked]
  split
  · exact neverLacks_prompt label
  · exact neverLacks_pure known

theorem neverLacks_credentials (i : Invocation) : NeverLacks (credentials i) := by
  refine (neverLacks_knownOrAsked _ _).bind fun email => neverLacks_get.bind fun _ =>
    (neverLacks_knownOrAsked _ _).bind fun password => ?_
  split
  · exact neverLacks_throw (by simp)
  · exact neverLacks_pure _

theorem neverLacks_fetch (c : Config) (force : Bool) : NeverLacks (fetch c force) := by
  refine neverLacks_get.bind fun s => ?_
  split
  · exact neverLacks_throw (by simp)
  · exact (neverLacks_ofExcept (by simp) _).bind fun _ => neverLacks_modify _

theorem neverLacks_logout (c : Config) : NeverLacks (logout c) :=
  neverLacks_files.bind fun _ => (neverLacks_ofExcept (by simp) _).bind fun _ =>
    (neverLacks_modify _).bind fun _ => neverLacks_modify _

end Commands

open Commands in
/-- A complete command never asks for an argument that is not there. -/
theorem Invocation.Complete.neverLacks_run {i : Invocation} (h : i.Complete) (c : Config) :
    Action.NeverLacks (run c i) := by
  have hleast := h.least_le
  unfold run
  cases hcommand : i.command <;> rw [hcommand] at hleast
  case none => exact absurd hcommand h.command_ne
  case scan =>
    exact (Action.NeverLacks.mapM (neverLacks_target c) i.args).bind fun _ =>
      neverLacks_scanTargets c _
  case add => exact neverLacks_add hleast c
  case list =>
    exact (Action.neverLacks_files.bind fun _ => Action.neverLacks_modify _).bind fun _ =>
      Action.neverLacks_pure 0
  case approve =>
    exact (neverLacks_settle hleast _ (Action.neverLacks_approve _)).bind fun _ =>
      Action.neverLacks_pure 0
  case reject =>
    exact (neverLacks_settle hleast _ (Action.neverLacks_reject _)).bind fun _ =>
      Action.neverLacks_pure 0
  case login => exact (neverLacks_credentials i).bind fun _ => Action.neverLacks_throw (by simp)
  case logout => exact (neverLacks_logout c).bind fun _ => Action.neverLacks_pure 0
  case fetch => exact (neverLacks_fetch c i.force).bind fun _ => Action.neverLacks_pure 0
  case diff => exact neverLacks_compare hleast c
  case configGet => exact (neverLacks_getSetting hleast).bind fun _ => Action.neverLacks_pure 0
  case configSet => exact (neverLacks_setSetting hleast).bind fun _ => Action.neverLacks_pure 0
  case configList => exact Action.neverLacks_throw (by simp)

/-! ## What parsing promises -/

/-- Parsing ends with a result or with an error of usage. Unless a text is shown instead, the result
names a command, and running it never asks for an argument that is not there; a scan has 1 to 256
targets, and a comparison has a report to compare with. -/
theorem CommandLine.parse_runnable (s : Settings) (words : List Text) :
    (∀ e, parse s words = .error e → (Failure.usage e).kind = .validation) ∧
      ∀ settings, parse s words = .ok ⟨settings, none⟩ →
        let i := settings.invocation
        i.command ≠ .none ∧
          (∀ c session index, ((Commands.run c i).run.run session).1 ≠ .error (.noArgument index)) ∧
          (i.command = .scan → 1 ≤ i.args.length ∧ i.args.length ≤ 256) ∧
          (i.command = .diff → i.baseline ≠ []) := by
  rw [parse]
  cases hrun : (interpretWords words).run.run s with
  | mk outcome s' =>
    cases outcome with
    | error e =>
      obtain ⟨cause, rfl⟩ := onlyRefuses_interpretWords words s s' e hrun
      refine ⟨?_, fun settings h => (by cases h)⟩
      rintro e ⟨⟩
      rfl
    | ok output =>
      refine ⟨fun e h => (by cases h), ?_⟩
      rintro settings ⟨⟩
      have hcomplete := complete_of_interpretWords hrun
      refine ⟨hcomplete.command_ne, hcomplete.neverLacks_run, fun hscan => ?_,
        hcomplete.baseline_ne⟩
      have hleast := hcomplete.least_le
      have hmost := hcomplete.le_most
      rw [hscan, Command.arity_scan] at hleast hmost
      exact ⟨hleast, hmost⟩

/-- A comparison is run with the target and the report of its command line. -/
theorem CommandLine.parse_runnable_comparison :
    ∃ settings, parse ⟨{}, {}⟩ (["diff", "x", "--baseline=b"].map String.ascii) =
        .ok ⟨settings, none⟩ ∧
      settings.invocation.command = .diff ∧ settings.invocation.baseline ≠ [] ∧
      ∀ c session index, ((Commands.run c settings.invocation).run.run session).1 ≠
        .error (.noArgument index) := by
  refine ⟨⟨{}, { command := .diff, args := ["x".ascii], baseline := "b".ascii }⟩, rfl, rfl, ?_⟩
  obtain ⟨-, hrun, -, hbaseline⟩ :=
    (parse_runnable ⟨{}, {}⟩ (["diff", "x", "--baseline=b"].map String.ascii)).2
      ⟨{}, { command := .diff, args := ["x".ascii], baseline := "b".ascii }⟩ rfl
  exact ⟨hbaseline rfl, hrun⟩

/-- A number that is out of range is an error of usage like any other that is wrong. -/
example :
    CommandLine.parse ⟨{}, {}⟩ (["list", "--timeout", "99999999999999999999"].map String.ascii) =
      .error (.usage (.invalidInteger "--timeout".ascii "99999999999999999999".ascii)) := by
  rfl

end Triage
