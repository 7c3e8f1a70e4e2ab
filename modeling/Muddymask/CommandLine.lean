import Muddymask.DummyCrypto
import Muddymask.Packet

/-!
The command line of `source/tunnel/main.cpp` and the endpoint strings of
`source/common/util/net.cpp`. An argument vector is the list of the arguments
after the program name; `argv[argc]` is the null pointer that follows them.
`gethostbyname` is a parameter: the first address of a host it knows. The log
file is taken to open.
-/

namespace Muddymask

open Words DummyCrypto

/-- What the exception says: a text and the string it is about. -/
structure ConfigError where
  text : String
  detail : Bytes
  deriving DecidableEq

namespace Util

def isSpace (c : UInt8) : Bool := c = 32 || (9 ≤ c && c ≤ 13)

def isDigit (c : UInt8) : Bool := 48 ≤ c && c ≤ 57

/-- The conversion `%d` of `sscanf`: white space, a sign, digits, and no look at
what follows them. A value out of range is undefined; it is cut here as glibc
does, to the range of `long` and then to the low 32 bits. -/
def scanInt (string : Bytes) : Option Int :=
  let text := (cString string).dropWhile isSpace
  let negative := text.headD 0 = 45
  let unsigned := if text.headD 0 = 43 ∨ negative then text.tail else text
  let digits := unsigned.takeWhile isDigit
  if digits = [] then none
  else
    let value := digits.foldl (fun (value : Nat) digit => 10 * value + (digit.toNat - 48)) 0
    let long : Int :=
      if negative then max (-value) (-0x8000000000000000) else min value 0x7FFFFFFFFFFFFFFF
    some (long.bmod 0x100000000)

def getInetAddress (order : ByteOrder) (gethostbyname : Bytes → Option UInt32)
    (string : Bytes) : Except ConfigError SockAddr :=
  let string := cString string
  let copy := string.takeWhile (· ≠ 58)
  match string.drop copy.length with
  | [] => .error ⟨"invalid address string: ", string⟩
  | _ :: port =>
      if copy = [] then .error ⟨"invalid address string: ", string⟩
      else match scanInt port with
        | none => .error ⟨"invalid port number: ", port⟩
        | some number =>
            if number ≤ 0 ∨ number ≥ 0x10000 - 1 then .error ⟨"invalid port number: ", port⟩
            else match gethostbyname copy with
              | none => .error ⟨"gethostbyname() failed, ", copy⟩
              -- `AF_INET` is 2
              | some host => .ok { sinFamily := 2, sinPort := htons order (UInt16.ofNat number.toNat),
                                   sinAddr := host }

end Util

namespace CommandLine

structure Config where
  remote : SockAddr
  localAddr : SockAddr
  secret : Bytes
  logFile : Bytes
  deriving DecidableEq

/-- Why there is no configuration: the program says so and returns `false`, an
exception leaves the function, or `argv[argc]` is used as a string. -/
inductive Failure where
  | returnsFalse (text : String) (detail : Bytes)
  | throws (error : ConfigError)
  | usesNull
  deriving DecidableEq

inductive Flag where
  | server
  | bind
  | secret
  | log
  deriving DecidableEq, Repr

def Flag.of (argument : Bytes) : Option Flag :=
  let argument := cString argument
  if argument = ascii "--server" then some .server
  else if argument = ascii "--bind" then some .bind
  else if argument = ascii "--secret" then some .secret
  else if argument = ascii "--log" then some .log
  else none

def kSecret : Bytes := ascii "jiubugaosuni"

def zeroAddr : SockAddr := { sinFamily := 0, sinPort := 0, sinAddr := 0 }

section
variable (order : ByteOrder) (gethostbyname : Bytes → Option UInt32)

def Flag.assign (config : Config) (value : Bytes) : Flag → Except ConfigError Config
  | .server => (Util.getInetAddress order gethostbyname value).map fun remote =>
      { config with remote }
  | .bind => (Util.getInetAddress order gethostbyname value).map fun localAddr =>
      { config with localAddr }
  | .secret => .ok { config with secret := cString value }
  | .log => .ok { config with logFile := cString value }

def parseArguments (config : Config) : List Bytes → Except Failure Config
  | [] => .ok config
  | argument :: rest => match Flag.of argument with
    | none => .error (.returnsFalse "Unknown command line: " argument)
    | some flag => match rest with
      | [] => .error .usesNull
      | value :: rest => match flag.assign order gethostbyname config value with
        | .error error => .error (.throws error)
        | .ok config => parseArguments config rest

def parseCommandLine (argv : List Bytes) : Except Failure Config :=
  match parseArguments order gethostbyname
      { remote := zeroAddr, localAddr := zeroAddr, secret := kSecret, logFile := [] } argv with
  | .error failure => .error failure
  | .ok config =>
      if config.remote.sinPort = 0 ∧ config.localAddr.sinPort = 0 then
        .error (.returnsFalse "One of --bind/--server must be given\n" [])
      else if config.remote.sinPort ≠ 0 ∧ config.localAddr.sinPort ≠ 0 then
        .error (.returnsFalse "Cannot give --bind and --server at the same time\n" [])
      else .ok config

end

/-- The secret in effect is the value of the last `--secret`, or the built-in one. -/
def lastSecret (initial : Bytes) : List Bytes → Bytes
  | argument :: value :: rest =>
      lastSecret (if Flag.of argument = some .secret then cString value else initial) rest
  | _ => initial

theorem parseArguments_secret {order : ByteOrder} {gethostbyname : Bytes → Option UInt32}
    {config parsed : Config} (argv : List Bytes)
    (accepted : parseArguments order gethostbyname config argv = .ok parsed) :
    parsed.secret = lastSecret config.secret argv := by
  -- The induction follows the loop: a flag and its value at each turn.
  fun_induction parseArguments order gethostbyname config argv with
  | case1 config =>
      cases accepted
      rfl
  | case2 => cases accepted
  | case3 => cases accepted
  | case4 => cases accepted
  | case5 config argument flag known value rest assigned assignment ih =>
      rw [ih accepted, lastSecret, known]
      cases flag <;> simp_all [Flag.assign, Except.map]
      · split at assignment <;> cases assignment
        rfl
      · split at assignment <;> cases assignment
        rfl
      · cases assignment
        rfl
      · cases assignment
        rfl

theorem parseCommandLine_secret {order : ByteOrder} {gethostbyname : Bytes → Option UInt32}
    {argv : List Bytes} {config : Config}
    (accepted : parseCommandLine order gethostbyname argv = .ok config) :
    config.secret = lastSecret kSecret argv := by
  simp only [parseCommandLine] at accepted
  split at accepted
  · cases accepted
  · rename_i parsed result
    have secret := parseArguments_secret argv result
    split at accepted
    · cases accepted
    · split at accepted <;> cases accepted
      exact secret

/-- The command line is accepted, and this is the secret it passes. -/
structure Passes (order : ByteOrder) (gethostbyname : Bytes → Option UInt32) (secret : Bytes)
    (argv : List Bytes) (config : Config) : Prop where
  accepted : parseCommandLine order gethostbyname argv = .ok config
  passed : lastSecret kSecret argv = secret

theorem Passes.secret_eq {order : ByteOrder} {gethostbyname : Bytes → Option UInt32}
    {secret : Bytes} {argv : List Bytes} {config : Config}
    (passes : Passes order gethostbyname secret argv config) : config.secret = secret :=
  (parseCommandLine_secret passes.accepted).trans passes.passed

end CommandLine

end Muddymask
