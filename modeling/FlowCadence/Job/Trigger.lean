import FlowCadence.Job.Config
/-! # Triggers

What a scheduling engine is given to install: a name, a schedule, and the payload that every
firing is handed.  A payload can be shown in full, as one line of text, to people who look for
trouble; texts stand in double quotes there, and a character that would not be seen, or that would
end the quotation, as an escape. -/

/-! ## Quoted text -/

namespace FlowCadence.Text

/-- Code points that leave no mark of their own, as closed ranges in ascending
    order: control and format characters, separators, combining marks of the common
    blocks, and what is for private use. -/
def unseenRanges : List (Nat × Nat) :=
  [(0x00, 0x1F), (0x7F, 0xA0), (0xAD, 0xAD), (0x300, 0x36F), (0x483, 0x489), (0x600, 0x605),
   (0x61C, 0x61C), (0x6DD, 0x6DD), (0x70F, 0x70F), (0x890, 0x891), (0x8E2, 0x8E2),
   (0x1680, 0x1680), (0x180E, 0x180E), (0x1AB0, 0x1ACE), (0x1DC0, 0x1DFF), (0x2000, 0x200F),
   (0x2028, 0x202F), (0x205F, 0x2064), (0x2066, 0x206F), (0x20D0, 0x20F0), (0x3000, 0x3000),
   (0xE000, 0xF8FF), (0xFE00, 0xFE0F), (0xFE20, 0xFE2F), (0xFEFF, 0xFEFF), (0xFFF9, 0xFFFB),
   (0x110BD, 0x110BD), (0x110CD, 0x110CD), (0x13430, 0x13438), (0x1BCA0, 0x1BCA3),
   (0x1D173, 0x1D17A), (0xE0001, 0xE0001), (0xE0020, 0xE007F), (0xE0100, 0xE01EF),
   (0xF0000, 0xFFFFD), (0x100000, 0x10FFFD)]

/-- Whether a character would not be seen. -/
def isUnseen (c : Char) : Bool :=
  unseenRanges.any fun r => decide (r.1 ≤ c.toNat) && decide (c.toNat ≤ r.2)

/-- A character as it stands in a quotation. -/
def quoteChar (c : Char) : List Char :=
  if c = '"' then ['\\', '"']
  else if c = '\\' then ['\\', '\\']
  else if c = '\n' then ['\\', 'n']
  else if c = '\r' then ['\\', 'r']
  else if c = '\t' then ['\\', 't']
  else if c = '\x00' then ['\\', '0']
  else if isUnseen c then ['\\', 'u', '\x7b'] ++ Nat.toDigits 16 c.toNat ++ ['\x7d']
  else [c]

/-- A text in double quotes. -/
def quote (s : String) : String := String.ofList (['"'] ++ s.toList.flatMap quoteChar ++ ['"'])

end FlowCadence.Text

/-! ## Payloads and triggers -/

namespace FlowCadence

/-- What every firing of a trigger is handed. -/
structure Payload where
  config : JobConfig
  /-- Somebody waits to be told how runs end. -/
  listener : Bool
  /-- The flow that was registered when the trigger was installed. -/
  flow : Option Flow
  deriving DecidableEq

/-- The configuration that a firing runs: the registered flow fills in for a flow
    that is not attached. -/
def Payload.effective (p : Payload) : JobConfig :=
  { p.config with flow := p.config.flow.or p.flow }

/-- A job that recurs. -/
structure ScheduledJob where
  name : String
  schedule : Cron.Schedule
  payload : Payload
  /-- Firings of this name never overlap. -/
  exclusive : Bool
  deriving DecidableEq

/-! ## Payloads in full -/

/-- The named parts of a thing, in braces behind its name. -/
def Text.record (name : String) (parts : List (String × String)) : String :=
  name ++ " \x7b " ++ ", ".intercalate (parts.map fun (k, v) => k ++ ": " ++ v) ++ " \x7d"

/-- A part that may be missing. -/
def Text.optional : Option String → String
  | some s => "Some(" ++ s ++ ")"
  | none => "None"

/-- Every property, in the order of their names. -/
def Properties.display (ps : Properties) : String :=
  "\x7b" ++ ", ".intercalate (ps.toList.map fun (k, v) => Text.quote k ++ ": " ++ Text.quote v) ++
    "\x7d"

/-- A label in full. -/
def Label.display (l : Label) : String := "NonEmptyString(" ++ Text.quote l.text ++ ")"

/-- A flow in full. -/
def Flow.display (f : Flow) : String :=
  Text.record "FlowSpec" [("uri", f.uri.display), ("version", f.version.display),
    ("description", Text.optional (f.description.map Text.quote)),
    ("properties", f.properties.display)]

/-- A configuration in full. -/
def JobConfig.display (c : JobConfig) : String :=
  Text.record "JobConfig" [("properties", c.properties.display),
    ("flow_spec", Text.optional (c.flow.map Flow.display))]

/-- A payload in full. -/
def Payload.display (p : Payload) : String :=
  Text.record "TriggerPayload" [("job_config", p.config.display),
    ("listener", if p.listener then "true" else "false"),
    ("flow_spec", Text.optional (p.flow.map Flow.display))]

end FlowCadence
