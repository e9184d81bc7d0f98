import Potocolom.Lib.Overlay
import Potocolom.Worker.Sessions

/-! # The identity on a protocol 6 report

`apply_command` of `_serve_protocol6` over the session manager. A runner keeps the
identity of the command that opened it as a dictionary, later commands merge into it,
and `Protocol6WebSocket` stamps what the runner's senders hand over with it. A session's
UUID is its number, as in the manager. -/

namespace Potocolom.Worker

/-! ## Controls as dictionaries -/

/-- A field of a control. -/
inductive Field where
  | text (s : String)
  | uuid (n : Nat)
  | number (n : Int)
  | truth (b : Bool)
deriving DecidableEq, Repr

abbrev Control := Dict String Field

/-- `{key: d[key] for key in keys if key in d}`. -/
def pick (d : Control) (keys : List String) : Control := fun k => if k ∈ keys then d k else none

/-- `d[key] = value`. -/
def assign (d : Control) (key : String) (value : Field) : Control :=
  Function.update d key (some value)

/-- `d.setdefault(key, value)`. -/
def setDefault (d : Control) (key : String) (value : Field) : Control :=
  assign d key ((d key).getD value)

/-- The dictionary of these items. -/
def dict : List (String × Field) → Control
  | [] => fun _ => none
  | (key, value) :: items => assign (dict items) key value

/-- A command: its fields but `params` and `work_budget`. -/
structure Command where
  fields : Control
  /-- `work_budget`, when it is an object. -/
  workBudget : Option Control
  params : Params

namespace Command

/-- The fields that the rows of the session commands share. -/
def sharedKeys : List String :=
  ["attempt_id", "body_hash", "command_id", "command_sequence", "control_generation",
    "grant_nonce", "incarnation", "lease_expires_at", "lease_id", "owner_epoch", "region",
    "session_id", "type", "worker_id"]

/-- The closed shape of a session command, with these further fields. -/
def HasShape (c : Command) (more : List String) (budget : Bool) : Prop :=
  (∀ key ∈ sharedKeys ++ more, (c.fields key).isSome) ∧ c.workBudget.isSome = budget

instance (c : Command) (more : List String) (budget : Bool) : Decidable (c.HasShape more budget) := by
  unfold HasShape
  infer_instance

def IsOpen (c : Command) : Prop := c.HasShape ["model_id"] true

def IsUpdate (c : Command) : Prop := c.HasShape ["model_id", "params_revision"] false

def IsClose (c : Command) : Prop := c.HasShape [] false

instance (c : Command) : Decidable c.IsOpen := by unfold IsOpen; infer_instance

instance (c : Command) : Decidable c.IsUpdate := by unfold IsUpdate; infer_instance

instance (c : Command) : Decidable c.IsClose := by unfold IsClose; infer_instance

def rawGeneration (c : Command) : RawGeneration :=
  match c.fields "control_generation" with
  | none => .missing
  | some (.truth b) => .bool b
  | some (.number n) => .int n
  | some _ => .other

/-- What `open` reads. -/
def open? (c : Command) : Option Open :=
  match c.fields "session_id", c.fields "model_id" with
  | some (.uuid x), some (.text model) => some ⟨x, c.rawGeneration, model, some c.params⟩
  | _, _ => none

/-- What `update` reads. -/
def update? (c : Command) : Option Update :=
  match c.fields "session_id" with
  | some (.uuid x) => some ⟨x, c.rawGeneration, c.params⟩
  | _ => none

/-- What `close` reads. -/
def close? (c : Command) : Option Close :=
  match c.fields "session_id" with
  | some (.uuid x) => some ⟨x, c.rawGeneration⟩
  | _ => none

end Command

/-! ## Identities -/

def identityKeys : List String :=
  ["worker_id", "incarnation", "region", "lease_id", "owner_epoch", "grant_nonce",
    "lease_expires_at", "session_id", "attempt_id", "control_generation", "params_revision",
    "job_id", "dispatch_sequence", "dispatch_token"]

/-- `_command_identity`; a budget without a `range_id` raises. -/
def commandIdentity (c : Command) : Option Control :=
  let identity := pick c.fields identityKeys
  match c.workBudget with
  | none => some identity
  | some budget => (budget "range_id").map (assign identity "range_id")

def commonKeys : List String :=
  ["worker_id", "incarnation", "region", "owner_epoch", "grant_nonce", "lease_id",
    "lease_expires_at"]

def sessionKinds : List String := ["session_ready", "session_refused", "session_closed"]

def jobKinds : List String := ["job_progress", "job_done", "job_failed", "job_cancelled"]

/-- `identity_fields`. -/
def identityFields (kind : String) : List String :=
  if kind ∈ sessionKinds then
    commonKeys ++ ["session_id", "attempt_id", "control_generation"] ++
      if kind = "session_ready" then ["params_revision"] else []
  else if kind ∈ jobKinds then commonKeys ++ ["job_id", "dispatch_sequence", "dispatch_token"]
  else commonKeys

/-- The code for a refusal's reason. -/
def refusalCode : Field → String
  | .text "invalid_params" => "invalid_params"
  | _ => "model_unavailable"

/-- `message.get("type")`. -/
def kindOf (message : Control) : String :=
  match message "type" with
  | some (.text kind) => kind
  | _ => ""

section Send

-- `_report_hash`, and what `validate_message` and `preflight_worker_control` check beside the
-- fields that a message must have
variable (reportHash : Control → String) (checks : Control → Bool)

/-- `_enrich_protocol6_message`; `none` where a key it reads is missing. -/
def enrich (message identity : Control) : Option Control := do
  let kind := kindOf message
  let mut result := message.overlay (pick identity (identityFields kind))
  if kind = "session_ready" then
    result := setDefault result "params_revision" ((identity "params_revision").getD (.number 1))
  if kind = "session_refused" then
    let reason := (result "reason").getD (.text "model_unavailable")
    result := setDefault (Function.update result "reason" none) "code" (.text (refusalCode reason))
  if kind = "session_closed" then
    let range ← identity "range_id"
    let sequence := (identity "session_report_sequence").getD (.number 1)
    result := result.overlay (dict [("range_id", range), ("report_sequence", sequence),
      ("physical_complete", .truth true)])
  if kind ∈ jobKinds then
    result := setDefault result "dispatch_sequence" (← identity "dispatch_sequence")
    result := setDefault result "dispatch_token" (← identity "dispatch_token")
  if kind = "job_failed" then
    result := setDefault result "failure_code" (.text "generation_failed")
  if kind ∈ ["job_done", "job_failed", "job_cancelled"] then
    let range ← identity "range_id"
    let sequence := (identity "job_report_sequence").getD (.number 1)
    let images := .number (if kind = "job_done" then 1 else 0)
    result := result.overlay (dict [("range_id", range), ("report_sequence", sequence),
      ("gpu_ms", (result "gpu_ms").getD (.number 0)),
      ("duration_ms", (result "duration_ms").getD (.number 0)),
      ("images", (result "images").getD images), ("physical_complete", .truth true)])
  if kind ∈ ["session_closed", "job_done", "job_failed", "job_cancelled"] then
    result := assign result "report_hash"
      (.text (reportHash (Function.update result "report_hash" none)))
  some result

/-- The fields that a session's report must have: its row of `_SHAPE_ROWS`. The shapes of
other messages are left to `checks`. -/
def shapeRequired (kind : String) : List String :=
  if kind = "session_ready" then
    ["attempt_id", "control_generation", "grant_nonce", "incarnation", "lease_expires_at",
      "lease_id", "owner_epoch", "params_revision", "region", "session_id", "type", "worker_id"]
  else if kind = "session_refused" then
    ["attempt_id", "code", "control_generation", "grant_nonce", "incarnation",
      "lease_expires_at", "lease_id", "owner_epoch", "region", "session_id", "type",
      "worker_id"]
  else if kind = "session_closed" then
    ["attempt_id", "category", "control_generation", "duration_ms", "frames", "gpu_ms",
      "grant_nonce", "incarnation", "lease_expires_at", "lease_id", "owner_epoch",
      "physical_complete", "range_id", "region", "report_hash", "report_sequence",
      "session_id", "type", "worker_id"]
  else []

/-- `validate_message` and `preflight_worker_control`. -/
def validates (message : Control) : Bool :=
  (shapeRequired (kindOf message)).all (fun key => (message key).isSome) && checks message

/-- `Protocol6WebSocket.send` under this value of `_protocol6_identity`; `none` raises. -/
def send (identity : Option Control) (message : Control) : Option Control :=
  let stamped :=
    match identity with
    | some identity => enrich reportHash message identity
    | none => some message
  stamped.filter (validates checks)

end Send

/-! ## Reports -/

/-- `lifecycle`. -/
def lifecycle (kind : String) (x generation : Nat) (extra : List (String × Field)) : Control :=
  dict (extra ++ [("control_generation", .number generation), ("session_id", .uuid x),
    ("type", .text kind)])

def Report.payload (report : Report) : Control :=
  lifecycle "session_closed" report.session report.generation
    ([("frames", .number report.frames), ("gpu_ms", .number report.gpuMs),
      ("duration_ms", .number report.durationMs), ("category", .text report.category)] ++
      (report.score.map fun score => ("category_score", Field.text score)).toList)

/-- The message that is handed to the socket; a frame is bytes. -/
def Sent.payload : Sent → Option Control
  | .ready x generation => some (lifecycle "session_ready" x generation [])
  | .refused x generation reason =>
    some (lifecycle "session_refused" x generation [("reason", .text reason)])
  | .closed report => some report.payload
  | .frame .. => none

/-! ## The connection -/

/-- A message on the wire, and the runner it was sent for, if one. -/
structure Posted where
  runner : Option Nat
  message : Control

/-- The session manager of a protocol 6 connection. -/
structure Link where
  manager : Manager
  /-- `_p6_identity`. -/
  identity : Nat → Option Control
  /-- The `open_session` that created the runner. -/
  origin : Nat → Command
  /-- The runners whose `close_report` is awaited, under the identity set before it. -/
  closing : List (Nat × Option Control)
  posted : List Posted

namespace Manager

/-- The runner whose `session_ready` an open repeats. -/
def resends (s : Manager) (control : Open) : Option Nat :=
  match controlGeneration control.generation, s.runners control.session with
  | some generation, some r =>
    if generation = s.highestOf control.session ∧ (s.rows r).readySent ∧ ¬ (s.rows r).ended then
      some r
    else none
  | _, _ => none

end Manager

namespace Link

/-- The control loop ends: the socket is closed and the manager is shut down. -/
def ends (s : Link) : Link := { s with manager := s.manager.shutdown }

/-- `open`, of a model that the worker holds; `none` raises. -/
def opens (reportHash : Control → String) (checks : Control → Bool) (s : Link)
    (command : Command) (identity : Control) (control : Open) (drawn : Int) : Option Link :=
  let manager := s.manager.openSession control drawn
  match s.manager.resends control with
  | some r =>
    -- `resend_ready` sends outside any identity
    let row := s.manager.rows r
    (send reportHash checks none (lifecycle "session_ready" row.session row.generation [])).map
      fun message => { s with manager := manager, posted := s.posted ++ [⟨some r, message⟩] }
  | none =>
    if s.manager.created < manager.created then
      some
        { s with
          manager := manager
          identity := Function.update s.identity s.manager.created (some identity)
          origin := Function.update s.origin s.manager.created command }
    else some { s with manager := manager }

/-- `open_session` of `apply_command`, with the refusal that follows its ack. -/
def openSession (reportHash : Control → String) (checks : Control → Bool) (s : Link)
    (command : Command) (drawn : Int) : Option Link := do
  let control ← command.open?
  let identity ← commandIdentity command
  match s.manager.byId.lookup control.modelId with
  | some _ => s.opens reportHash checks command identity control drawn
  | none =>
    -- `unavailable_model_report`
    match controlGeneration control.generation with
    | none => s.opens reportHash checks command identity control drawn
    | some generation =>
      let refusal := lifecycle "session_refused" control.session generation
        [("reason", .text "not_resident")]
      (send reportHash checks (some identity) refusal).map fun message =>
        { s with posted := s.posted ++ [⟨none, message⟩] }

/-- `update_session` of `apply_command`. -/
def updateSession (s : Link) (command : Command) : Option Link := do
  let control ← command.update?
  let s := { s with manager := s.manager.updateSession control }
  match s.manager.runners control.session with
  | none => some s
  | some r =>
    match s.identity r with
    | none => some s
    | some identity =>
      match commandIdentity command with
      | none => some s.ends
      | some merged =>
        some
          { s with identity := Function.update s.identity r (some (identity.overlay merged)) }

/-- `close_session` of `apply_command`, up to its `close_report`. -/
def closeSession (s : Link) (command : Command) : Option Link := do
  let control ← command.close?
  let manager := s.manager.closeSession control
  let closing := manager.reporting.drop s.manager.reporting.length
  some
    { s with
      manager := manager
      closing := s.closing ++ closing.map fun r => (r, s.identity r) }

/-- A runner's task goes on. What it sends is stamped with the runner's identity; when that
raises, the task is done. -/
def runs (reportHash : Control → String) (checks : Control → Bool) (s : Link) (r : Nat)
    (event : TaskEvent) : Option Link := do
  let (row, sent) ← (s.manager.rows r).resume event
  let stands := { s with manager := s.manager.setRunner r fun _ => row }
  match sent.findSome? Sent.payload with
  | none => some stands
  | some payload =>
    match send reportHash checks (s.identity r) payload with
    | some message => some { stands with posted := s.posted ++ [⟨some r, message⟩] }
    | none => some { s with manager := s.manager.setRunner r fun _ => { row with phase := .done } }

/-- `close_report` returns, and the report is sent under the identity set before it. -/
def reports (reportHash : Control → String) (checks : Control → Bool) (s : Link) (r durationMs : Nat)
    (category : String) (score : Option String) : Option Link := do
  let identity ← s.closing.lookup r
  let row := s.manager.rows r
  let manager := { s.manager with reporting := s.manager.reporting.erase r }
  let s := { s with manager := manager, closing := s.closing.filter (·.1 ≠ r) }
  let report : Report :=
    ⟨row.session, row.generation, row.frames, row.gpuMs, durationMs, category, score⟩
  match send reportHash checks identity report.payload with
  | some message => some { s with posted := s.posted ++ [⟨some r, message⟩] }
  | none => some s.ends

end Link

/-- What happens next on the connection. -/
inductive Event where
  | openSession (command : Command) (drawn : Int)
  | updateSession (command : Command)
  | closeSession (command : Command)
  | runs (r : Nat) (event : TaskEvent)
  | reports (r durationMs : Nat) (category : String) (score : Option String)
  | submit (x revision : Nat) (payload : List UInt8)
  | forgets (r : Nat)
  | modelsChanged (byId : List (String × Manifest))
  | shutdown

namespace Link

/-- A step of the manager that sends nothing. -/
def within (s : Link) (action : Action) : Option Link :=
  (Worker.step s.manager action).map fun manager => { s with manager := manager }

/-- One step. The commands have passed `validate_message`; one that raises ends the
connection. -/
def step (reportHash : Control → String) (checks : Control → Bool) (s : Link) :
    Event → Option Link
  | .openSession command drawn =>
    if s.manager.stopped ∨ ¬ command.IsOpen then none
    else some ((s.openSession reportHash checks command drawn).getD s.ends)
  | .updateSession command =>
    if s.manager.stopped ∨ ¬ command.IsUpdate then none
    else some ((s.updateSession command).getD s.ends)
  | .closeSession command =>
    if s.manager.stopped ∨ ¬ command.IsClose then none
    else some ((s.closeSession command).getD s.ends)
  | .runs r event =>
    if r < s.manager.created then s.runs reportHash checks r event else none
  | .reports r durationMs category score => s.reports reportHash checks r durationMs category score
  | .submit x revision payload => s.within (.submit x revision payload)
  | .forgets r => s.within (.forgets r)
  | .modelsChanged byId => s.within (.modelsChanged byId)
  | .shutdown => s.within .shutdown

/-- A fresh connection. -/
def fresh (byId : List (String × Manifest)) : Link :=
  { manager := Worker.fresh byId, identity := fun _ => none
    origin := fun _ => ⟨fun _ => none, none, []⟩, closing := [], posted := [] }

/-- The sessions of a protocol 6 connection. -/
def machine (reportHash : Control → String) (checks : Control → Bool) : Machine Link Event where
  init s := ∃ byId, s = fresh byId
  step := step reportHash checks

end Link

end Potocolom.Worker
