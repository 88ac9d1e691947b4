import PropzaAmlak.Data.Integers
import PropzaAmlak.JobQueue.ManagerRuns

/-! The configuration of the channels from a text. -/

namespace JobQueue

open ChannelQueue Channel Channels Text

/-- `split_strip(s, sep)`. -/
def splitStrip (text : List Char) (sep : Char) : List (List Char) := (text.splitOn sep).map strip

/-- An option without a value has the value `True`, here `none`. -/
structure ChannelConfig where
  name : String
  capacity : Int
  options : List (String × Option String) := []

inductive ConfigError where
  | valueError (message : String)
  | invalidLiteral (text : String)
  | assertionError

namespace ChannelConfig

def keys (config : ChannelConfig) : List String := "name" :: "capacity" :: config.options.map Prod.fst

def get (config : ChannelConfig) (key : String) : Option (Option String) :=
  (config.options.find? (·.1 = key)).map Prod.snd

end ChannelConfig

namespace Manager

def invalid (configString : List Char) (problem : String) : ConfigError :=
  .valueError ("Invalid channel config " ++ String.ofList configString ++ ": " ++ problem)

def keyValue (configString item : List Char) : Except ConfigError (String × Option String) :=
  match splitStrip item '=' with
  | [k] => .ok (String.ofList k, none)
  | [k, v] => .ok (String.ofList k, some (String.ofList v))
  | _ => .error (invalid configString ("incorrect config item " ++ String.ofList item))

def parseOptions (configString : List Char) : List (List Char) → ChannelConfig → Except ConfigError ChannelConfig
  | [], config => .ok config
  | item :: items, config =>
    match keyValue configString item with
    | .error e => .error e
    | .ok (k, v) =>
      if k ∈ config.keys then .error (invalid configString ("duplicate key " ++ k))
      else parseOptions configString items { config with options := config.options ++ [(k, v)] }

def parseChannel (configString channelConfigString : List Char) : Except ConfigError ChannelConfig :=
  match splitStrip channelConfigString ':' with
  | [] => .error (invalid configString "missing channel name")
  | name :: items =>
    if name = [] then .error (invalid configString "missing channel name")
    else
      match items with
      | [] => .ok ⟨String.ofList name, 1, []⟩
      | capacity :: items =>
        match int capacity with
        | none => .error (invalid configString ("invalid capacity " ++ String.ofList capacity))
        | some n => parseOptions configString items ⟨String.ofList name, n, []⟩

def parseEntries (configString : List Char) : List (List Char) → Except ConfigError (List ChannelConfig)
  | [] => .ok []
  | entry :: entries =>
    if entry = [] then parseEntries configString entries
    else
      match parseChannel configString entry with
      | .error e => .error e
      | .ok config =>
        match parseEntries configString entries with
        | .error e => .error e
        | .ok configs => .ok (config :: configs)

def parseSimpleConfig (configString : String) : Except ConfigError (List ChannelConfig) :=
  let text := configString.toList.map fun c => if c = '\n' then ',' else c
  parseEntries text (splitStrip text ',')

/-! ### What is configured -/

def fullname (p : Path) : String := ".".intercalate ("root" :: p.reverse)

def sequentialOf (config : ChannelConfig) : Bool :=
  match config.get "sequential" with
  | none => false
  | some none => true
  | some (some v) => v ≠ ""

/-- Times are in microseconds, throttles are given in seconds. -/
def microseconds (seconds : Int) : Int := 1000000 * seconds

def throttleOf (config : ChannelConfig) : Except ConfigError Int :=
  match config.get "throttle" with
  | none => .ok 0
  -- `int(True)`
  | some none => .ok (microseconds 1)
  | some (some v) =>
    match int v.toList with
    | none => .error (.invalidLiteral v)
    | some n => .ok (microseconds n)

def configure (p : Path) (config : ChannelConfig) (c : Channel) : Except ConfigError Channel :=
  if ¬ config.name.toList <:+ (fullname p).toList then .error .assertionError
  else
    match throttleOf config with
    | .error e => .error e
    | .ok throttle =>
      if sequentialOf config ∧ config.capacity ≠ 1 then
        .error (.valueError "A sequential channel must have a capacity of 1")
      else
        .ok { c with
          queue := { c.queue with sequential := sequentialOf config }
          capacity := some config.capacity
          throttle := throttle }

def getChannelFromConfig (config : ChannelConfig) (m : Manager) : Except ConfigError Manager :=
  match getChannelByName m.children config.name true false with
  | .error message => .error (.valueError message)
  | .ok (path, children) =>
    match configure path config (m.channels.channel path) with
    | .error e => .error e
    | .ok c => .ok { m with channels := m.channels.modify path fun _ => c, children := children }

def configureAll : List ChannelConfig → Manager → Except ConfigError Manager
  | [], m => .ok m
  | config :: configs, m =>
    match getChannelFromConfig config m with
    | .error e => .error e
    | .ok m => configureAll configs m

def simpleConfigure (configString : String) (m : Manager) : Except ConfigError Manager :=
  match parseSimpleConfig configString with
  | .error e => .error e
  | .ok configs => configureAll configs m

/-- A `ChannelManager` with its root channel. -/
def init : Manager where
  channels :=
    { channel := fun p => if p = [] then { capacity := some 1 } else {}
      job := fun _ => ⟨"", [], "", 0, 0, 0, none⟩ }
  children := .none
  jobsByUuid := fun _ => none
  next := 0

end Manager

end JobQueue
