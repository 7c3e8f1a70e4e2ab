import Muddymask.Endpoint

/-!
What a command line stands for: pairs of an option and its value, of which the
last one with an option counts. The loop takes the value of an option from the
next argument without asking whether there is one.
-/

namespace Muddymask.CommandLine

open Words DummyCrypto Util

def pairs : List Bytes → Option (List (Flag × Bytes))
  | [] => some []
  | [_] => none
  | argument :: value :: rest =>
      (Flag.of argument).bind fun flag => (pairs rest).map fun options => (flag, value) :: options

/-- The value that counts for an option. -/
def lastValue (flag : Flag) : List (Flag × Bytes) → Option Bytes
  | [] => none
  | (other, value) :: rest => (lastValue flag rest).or (if other = flag then some value else none)

theorem lastValue_none {flag : Flag} {options : List (Flag × Bytes)} :
    lastValue flag options = none ↔ ∀ value, (flag, value) ∉ options := by
  induction options with
  | nil => simp [lastValue]
  | cons option rest ih =>
      obtain ⟨other, given⟩ := option
      rw [lastValue, Option.or_eq_none_iff, ih]
      by_cases same : other = flag
      · subst same
        refine iff_of_false (by simp) fun none => none given List.mem_cons_self
      · simp [same, Ne.symm same]

section
variable (order : ByteOrder) (gethostbyname : Bytes → Option UInt32)

/-- The configuration has `value` for the option. -/
def Flag.Set (config : Config) (value : Bytes) : Flag → Prop
  | .server => getInetAddress order gethostbyname value = .ok config.remote
  | .bind => getInetAddress order gethostbyname value = .ok config.localAddr
  | .secret => config.secret = cString value
  | .log => config.logFile = cString value

def Flag.Agree (left right : Config) : Flag → Prop
  | .server => left.remote = right.remote
  | .bind => left.localAddr = right.localAddr
  | .secret => left.secret = right.secret
  | .log => left.logFile = right.logFile

def Flag.Parses (value : Bytes) : Flag → Prop
  | .server | .bind => ∃ address, getInetAddress order gethostbyname value = .ok address
  | .secret | .log => True

def InEffect (config : Config) (options : List (Flag × Bytes)) (parsed : Config) (flag : Flag) :
    Prop :=
  match lastValue flag options with
  | none => flag.Agree parsed config
  | some value => flag.Set order gethostbyname parsed value

/-- The loop of `parseCommandLine` over pairs. -/
def assignAll (config : Config) (options : List (Flag × Bytes)) : Except ConfigError Config :=
  options.foldlM (fun config option => option.1.assign order gethostbyname config option.2) config

end

section
variable {order : ByteOrder} {gethostbyname : Bytes → Option UInt32}

namespace Flag
variable {flag : Flag} {config left right : Config} {value : Bytes}

theorem agree_refl (flag : Flag) (config : Config) : flag.Agree config config := by
  cases flag <;> rfl

theorem agree_symm (same : flag.Agree left right) : flag.Agree right left := by
  cases flag <;> exact Eq.symm same

theorem agree_trans {middle : Config} (first : flag.Agree left middle)
    (second : flag.Agree middle right) : flag.Agree left right := by
  cases flag <;> exact Eq.trans first second

theorem agree_ext (same : ∀ flag : Flag, flag.Agree left right) : left = right := by
  have remote := same .server
  have localAddr := same .bind
  have secret := same .secret
  have logFile := same .log
  cases left
  cases right
  simp_all [Agree]

theorem set_congr (same : flag.Agree left right) (set : flag.Set order gethostbyname left value) :
    flag.Set order gethostbyname right value := by
  cases flag with
  | server | bind => exact set.trans (congrArg Except.ok same)
  | secret | log => exact same.symm.trans set

theorem set_unique (first : flag.Set order gethostbyname left value)
    (second : flag.Set order gethostbyname right value) : flag.Agree left right := by
  cases flag with
  | server | bind => exact Except.ok.inj (first.symm.trans second)
  | secret | log => exact first.trans second.symm

theorem parses_of_set (set : flag.Set order gethostbyname config value) :
    flag.Parses order gethostbyname value := by
  cases flag with
  | server | bind => exact ⟨_, set⟩
  | secret | log => trivial

theorem assign_some (parses : flag.Parses order gethostbyname value) (config : Config) :
    ∃ next, flag.assign order gethostbyname config value = .ok next := by
  cases flag with
  | server | bind =>
      obtain ⟨address, parsed⟩ := parses
      exact ⟨_, by rw [assign, parsed]; rfl⟩
  | secret | log => exact ⟨_, rfl⟩

theorem assign_spec {next : Config}
    (assigned : flag.assign order gethostbyname config value = .ok next) :
    flag.Set order gethostbyname next value ∧
      ∀ other, other ≠ flag → other.Agree next config := by
  cases flag with
  | server | bind =>
      simp only [assign, Except.map] at assigned
      split at assigned
      · cases assigned
      · rename_i parsed
        cases assigned
        refine ⟨parsed, fun other different => ?_⟩
        cases other <;> first | rfl | exact (different rfl).elim
  | secret | log =>
      cases assigned
      refine ⟨rfl, fun other different => ?_⟩
      cases other <;> first | rfl | exact (different rfl).elim

end Flag

theorem assignAll_cons {config next : Config} {flag : Flag} {value : Bytes}
    (assigned : flag.assign order gethostbyname config value = .ok next)
    (rest : List (Flag × Bytes)) : assignAll order gethostbyname config ((flag, value) :: rest) =
      assignAll order gethostbyname next rest := by
  rw [assignAll, List.foldlM_cons, assigned]
  rfl

theorem inEffect_cons {config next parsed : Config} {flag : Flag} {value : Bytes}
    (assigned : flag.assign order gethostbyname config value = .ok next)
    (rest : List (Flag × Bytes)) (other : Flag) :
    InEffect order gethostbyname config ((flag, value) :: rest) parsed other ↔
      InEffect order gethostbyname next rest parsed other := by
  obtain ⟨set, others⟩ := Flag.assign_spec assigned
  rw [InEffect, lastValue, InEffect]
  cases lastValue other rest with
  | some given => rfl
  | none =>
      by_cases same : flag = other
      · subst same
        rw [if_pos rfl]
        exact ⟨fun after => Flag.set_unique after set,
          fun after => Flag.set_congr (Flag.agree_symm after) set⟩
      · have kept := others other (Ne.symm same)
        rw [if_neg same]
        exact ⟨fun after => Flag.agree_trans after (Flag.agree_symm kept),
          fun after => Flag.agree_trans after kept⟩

theorem assignAll_iff {config parsed : Config} {options : List (Flag × Bytes)} :
    assignAll order gethostbyname config options = .ok parsed ↔
      (∀ option ∈ options, option.1.Parses order gethostbyname option.2) ∧
      ∀ flag, InEffect order gethostbyname config options parsed flag := by
  induction options generalizing config with
  | nil =>
      constructor
      · intro same
        cases same
        exact ⟨by simp, fun flag => Flag.agree_refl flag _⟩
      · rintro ⟨_, agree⟩
        exact congrArg Except.ok (Flag.agree_ext fun flag => Flag.agree_symm (agree flag))
  | cons option rest ih =>
      obtain ⟨flag, value⟩ := option
      constructor
      · intro done
        cases assigned : flag.assign order gethostbyname config value with
        | error error =>
            rw [assignAll, List.foldlM_cons, assigned] at done
            cases done
        | ok next =>
            rw [assignAll_cons assigned] at done
            obtain ⟨parses, effect⟩ := ih.mp done
            refine ⟨fun option member => ?_, fun other =>
              (inEffect_cons assigned rest other).mpr (effect other)⟩
            rcases List.mem_cons.mp member with rfl | later
            · exact Flag.parses_of_set (Flag.assign_spec assigned).1
            · exact parses option later
      · rintro ⟨parses, effect⟩
        obtain ⟨next, assigned⟩ := Flag.assign_some (parses _ List.mem_cons_self) config
        rw [assignAll_cons assigned]
        exact ih.mpr ⟨fun option member => parses option (List.mem_cons_of_mem _ member),
          fun other => (inEffect_cons assigned rest other).mp (effect other)⟩

theorem pairs_cons {argument value : Bytes} {flag : Flag} (known : Flag.of argument = some flag)
    (rest : List Bytes) : pairs (argument :: value :: rest) =
      (pairs rest).map fun options => (flag, value) :: options := by
  rw [pairs, known, Option.bind_some]

theorem pairs_known {argument : Bytes} {rest : List Bytes} {options : List (Flag × Bytes)}
    (paired : pairs (argument :: rest) = some options) : Flag.of argument ≠ none := by
  intro unknown
  cases rest with
  | nil => cases paired
  | cons value rest =>
      rw [pairs, unknown] at paired
      cases paired

/-- The loop returns if the arguments are pairs that it can assign. -/
theorem parseArguments_ok {config parsed : Config} {argv : List Bytes} :
    parseArguments order gethostbyname config argv = .ok parsed ↔
      ∃ options, pairs argv = some options ∧
        assignAll order gethostbyname config options = .ok parsed := by
  fun_induction parseArguments order gethostbyname config argv with
  | case1 config => simp [pairs, assignAll, pure, Except.pure]
  | case2 config argument rest unknown =>
      refine iff_of_false (by simp) ?_
      rintro ⟨options, paired, _⟩
      exact pairs_known paired unknown
  | case3 config argument flag known =>
      refine iff_of_false (by simp) ?_
      rintro ⟨options, paired, _⟩
      cases paired
  | case4 config argument flag known value rest error failed =>
      refine iff_of_false (by simp) ?_
      rintro ⟨options, paired, done⟩
      rw [pairs_cons known] at paired
      obtain ⟨later, _, rfl⟩ := Option.map_eq_some_iff.mp paired
      rw [assignAll, List.foldlM_cons, failed] at done
      cases done
  | case5 config argument flag known value rest next assigned ih =>
      rw [ih, pairs_cons known]
      constructor
      · rintro ⟨options, paired, done⟩
        exact ⟨_, by rw [paired, Option.map_some], (assignAll_cons assigned options).trans done⟩
      · rintro ⟨options, paired, done⟩
        obtain ⟨later, same, rfl⟩ := Option.map_eq_some_iff.mp paired
        exact ⟨later, same, (assignAll_cons assigned later).symm.trans done⟩

variable (order gethostbyname) in
/-- Pairs with values that parse, and then an option without one. -/
def EndsInOption (argv : List Bytes) : Prop :=
  ∃ front lone options, argv = front ++ [lone] ∧ pairs front = some options ∧
    (∀ option ∈ options, option.1.Parses order gethostbyname option.2) ∧ Flag.of lone ≠ none

/-- The loop uses the null pointer behind the arguments exactly there. -/
theorem parseArguments_null {config : Config} {argv : List Bytes} :
    parseArguments order gethostbyname config argv = .error .usesNull ↔
      EndsInOption order gethostbyname argv := by
  fun_induction parseArguments order gethostbyname config argv with
  | case1 config =>
      refine iff_of_false (by simp) ?_
      rintro ⟨front, lone, _, split, _⟩
      exact List.append_ne_nil_of_right_ne_nil front (List.cons_ne_nil lone []) split.symm
  | case2 config argument rest unknown =>
      refine iff_of_false (by simp) ?_
      rintro ⟨_ | ⟨first, front⟩, lone, options, split, paired, _, option⟩
      · cases split
        exact option unknown
      · cases split
        exact pairs_known paired unknown
  | case3 config argument flag known =>
      refine iff_of_true rfl ⟨[], argument, [], rfl, rfl, by simp, ?_⟩
      rw [known]
      exact Option.some_ne_none flag
  | case4 config argument flag known value rest error failed =>
      refine iff_of_false (by simp) ?_
      rintro ⟨_ | ⟨first, _ | ⟨second, front⟩⟩, lone, options, split, paired, parses, _⟩
      · cases split
      · cases paired
      · cases split
        rw [pairs_cons known] at paired
        obtain ⟨later, _, rfl⟩ := Option.map_eq_some_iff.mp paired
        obtain ⟨next, assigned⟩ := Flag.assign_some (parses _ List.mem_cons_self) config
        rw [failed] at assigned
        cases assigned
  | case5 config argument flag known value rest next assigned ih =>
      rw [ih]
      constructor
      · rintro ⟨front, lone, options, rfl, paired, parses, option⟩
        refine ⟨argument :: value :: front, lone, (flag, value) :: options, rfl, ?_, ?_, option⟩
        · rw [pairs_cons known, paired, Option.map_some]
        · intro given member
          rcases List.mem_cons.mp member with rfl | later
          · exact Flag.parses_of_set (Flag.assign_spec assigned).1
          · exact parses given later
      · rintro ⟨_ | ⟨first, _ | ⟨second, front⟩⟩, lone, options, split, paired, parses, option⟩
        · cases split
        · cases paired
        · cases split
          rw [pairs_cons known] at paired
          obtain ⟨later, same, rfl⟩ := Option.map_eq_some_iff.mp paired
          exact ⟨front, lone, later, rfl, same,
            fun given member => parses given (List.mem_cons_of_mem _ member), option⟩

def defaults : Config :=
  { remote := zeroAddr, localAddr := zeroAddr, secret := kSecret, logFile := [] }

variable (order gethostbyname) in
/-- What the options ask for. -/
structure Configured (options : List (Flag × Bytes)) (config : Config) : Prop where
  parses : ∀ option ∈ options, option.1.Parses order gethostbyname option.2
  one : (∃ value, (.server, value) ∈ options) ↔ ¬ ∃ value, (.bind, value) ∈ options
  effect : ∀ flag, InEffect order gethostbyname defaults options config flag

/-- The port that the end of `parseCommandLine` looks at. -/
def Flag.port (config : Config) : Flag → UInt16
  | .server => config.remote.sinPort
  | .bind => config.localAddr.sinPort
  | .secret | .log => 0

theorem port_zero {options : List (Flag × Bytes)} {config : Config} {flag : Flag}
    (endpoint : flag = .server ∨ flag = .bind)
    (effect : InEffect order gethostbyname defaults options config flag) :
    flag.port config = 0 ↔ ¬ ∃ value, (flag, value) ∈ options := by
  rw [not_exists, ← lastValue_none]
  rw [InEffect] at effect
  cases last : lastValue flag options with
  | none =>
      rw [last] at effect
      refine iff_of_true ?_ rfl
      rcases endpoint with rfl | rfl
      · exact congrArg SockAddr.sinPort effect
      · exact congrArg SockAddr.sinPort effect
  | some value =>
      rw [last] at effect
      refine iff_of_false ?_ (by simp)
      rcases endpoint with rfl | rfl
      · exact getInetAddress_port effect
      · exact getInetAddress_port effect

/-- What the two tests at the end of `parseCommandLine` mean. -/
theorem ports_iff {options : List (Flag × Bytes)} {config : Config}
    (effect : ∀ flag, InEffect order gethostbyname defaults options config flag) :
    (¬ (config.remote.sinPort = 0 ∧ config.localAddr.sinPort = 0) ∧
      ¬ (config.remote.sinPort ≠ 0 ∧ config.localAddr.sinPort ≠ 0)) ↔
    ((∃ value, (.server, value) ∈ options) ↔ ¬ ∃ value, (.bind, value) ∈ options) := by
  have remote : config.remote.sinPort = 0 ↔ ¬ ∃ value, (.server, value) ∈ options :=
    port_zero (Or.inl rfl) (effect .server)
  have localAddr : config.localAddr.sinPort = 0 ↔ ¬ ∃ value, (.bind, value) ∈ options :=
    port_zero (Or.inr rfl) (effect .bind)
  rw [ne_eq, ne_eq, remote, localAddr]
  tauto

theorem parseCommandLine_ok {argv : List Bytes} {config : Config} :
    parseCommandLine order gethostbyname argv = .ok config ↔
      ∃ options, pairs argv = some options ∧
        Configured order gethostbyname options config := by
  constructor
  · intro accepted
    simp only [parseCommandLine] at accepted
    split at accepted
    · cases accepted
    · rename_i parsed result
      obtain ⟨options, paired, assigned⟩ := parseArguments_ok.mp result
      obtain ⟨parses, effect⟩ := assignAll_iff.mp assigned
      split at accepted
      · cases accepted
      · split at accepted
        · cases accepted
        · rename_i notNeither notBoth
          cases accepted
          exact ⟨options, paired, parses, (ports_iff effect).mp ⟨notNeither, notBoth⟩, effect⟩
  · rintro ⟨options, paired, parses, one, effect⟩
    have result : parseArguments order gethostbyname defaults argv = .ok config :=
      parseArguments_ok.mpr ⟨options, paired, assignAll_iff.mpr ⟨parses, effect⟩⟩
    obtain ⟨notNeither, notBoth⟩ := (ports_iff effect).mpr one
    rw [defaults] at result
    simp only [parseCommandLine, result]
    rw [if_neg notNeither, if_neg notBoth]

theorem parseCommandLine_null {argv : List Bytes} :
    parseCommandLine order gethostbyname argv = .error .usesNull ↔
      EndsInOption order gethostbyname argv := by
  have loop := @parseArguments_null order gethostbyname defaults argv
  rw [← loop, defaults]
  simp only [parseCommandLine]
  split
  · rename_i failure result
    rw [result]
  · rename_i parsed result
    rw [result]
    split
    · simp
    · split <;> simp

/-- Nothing is used as a string that is none, and the configuration is the one that
the arguments ask for, if there is one. -/
def ParsesExactly (order : ByteOrder) (gethostbyname : Bytes → Option UInt32)
    (argv : List Bytes) : Prop :=
  parseCommandLine order gethostbyname argv ≠ .error .usesNull ∧
    ∀ config, parseCommandLine order gethostbyname argv = .ok config ↔
      ∃ options, pairs argv = some options ∧ Configured order gethostbyname options config

theorem command_line_iff (order : ByteOrder) (gethostbyname : Bytes → Option UInt32)
    (argv : List Bytes) : ParsesExactly order gethostbyname argv ↔
      ¬ EndsInOption order gethostbyname argv := by
  rw [ParsesExactly, ne_eq, parseCommandLine_null]
  exact and_iff_left fun config => parseCommandLine_ok

/-- A `--server` without its endpoint. -/
theorem command_line_fails : ¬ ParsesExactly .little (fun _ => none) [ascii "--server"] :=
  fun exact => exact.1 rfl

end

end Muddymask.CommandLine
