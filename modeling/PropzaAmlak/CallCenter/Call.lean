import PropzaAmlak.Data.Integers
import PropzaAmlak.Ejar.Payload

/-! The calls of `call_center_call.py`, and what the webhooks of the telephony
providers and the clean-up cron write to them. -/

namespace CallCenter

open Ejar (CharField)

inductive CallState
  | ringing | answered | missed | voicemail | ended
deriving DecidableEq

inductive Direction
  | incoming | outgoing
deriving DecidableEq

/-- A record of `sa.call.center.call`; times are in seconds from the start of the year
1, before which there is none. -/
structure Call where
  name : String
  callUid : CharField
  direction : Direction := .incoming
  fromNumber : CharField := none
  toNumber : CharField := none
  agent : Option Nat := none
  queue : Option Nat := none
  state : CallState := .ringing
  startDatetime : Option Nat := none
  answerDatetime : Option Nat := none
  endDatetime : Option Nat := none
  recordingUrl : CharField := none
deriving DecidableEq

namespace Call

/-- `_cron_close_stale_ringing_calls`, for one call. -/
def closeStaleRinging (timeoutMinutes now : Nat) (call : Call) : Call :=
  match call.state, call.startDatetime with
  | .ringing, some start =>
    if start + 60 * timeoutMinutes ≤ now then { call with state := .missed, endDatetime := some now } else call
  | _, _ => call

end Call

/-- What a handler can raise: a text that `int` does not read, a time before the year 1,
and a direction that is none. -/
inductive Fault
  | invalidLiteral | dateOutOfRange | wrongDirection
deriving DecidableEq

/-- `int(text)` -/
def intOfText (text : String) : Option Int := Text.int text.toList

/-- `CallStatus` -/
inductive CallStatus
  | ringing | inProgress | completed | busy | noAnswer | failed | canceled
  | other (text : CharField)
deriving DecidableEq

/-- `MISSED_STATUSES` -/
def missedStatuses : List CallStatus := [.busy, .noAnswer, .failed, .canceled]

/-- The form of a status callback of Twilio. -/
structure StatusForm where
  callStatus : CallStatus
  recordingUrl : CharField := none
  callDuration : CharField := none
  duration : CharField := none
deriving DecidableEq

/-- `form.get('CallDuration') or form.get('Duration')`, if there is any of it. -/
def StatusForm.seconds (form : StatusForm) : Option String :=
  let text := if form.callDuration.truthy then form.callDuration else form.duration
  if text.truthy then text else none

/-- When a completed call was answered, from how long it took. -/
def answeredAt (now : Nat) (form : StatusForm) : Except Fault (Option Nat) :=
  match form.seconds with
  | none => .ok none
  | some text =>
    match intOfText text with
    | none => .error .invalidLiteral
    | some seconds =>
      if seconds ≤ 0 then .ok none
      else if (now : Int) < seconds then .error .dateOutOfRange
      else .ok (some (now - seconds.toNat))

def complete (now : Nat) (form : StatusForm) (call : Call) : Except Fault Call := do
  let answer ← if call.answerDatetime.isSome then pure call.answerDatetime else answeredAt now form
  return { call with
    state := if answer.isSome then .ended else .missed
    answerDatetime := answer
    endDatetime := some now
    recordingUrl := if form.recordingUrl.truthy then form.recordingUrl else call.recordingUrl }

/-- `_apply_call_status` -/
def applyCallStatus (now : Nat) (form : StatusForm) (call : Call) : Except Fault Call :=
  match form.callStatus with
  | .ringing => .ok { call with state := .ringing }
  | .inProgress => .ok { call with state := .answered, answerDatetime := some now }
  | .completed => complete now form call
  | status =>
    if missedStatuses.contains status then .ok { call with state := .missed, endDatetime := some now } else .ok call

inductive HttpReply
  | invalidSignature | callNotFound | ok
deriving DecidableEq

/-- What a status callback does for the call it finds, and answers. -/
def statusCallback (valid : Bool) (found : Option Call) (now : Nat) (form : StatusForm) :
    Except Fault (HttpReply × Option Call) :=
  if !valid then .ok (.invalidSignature, found)
  else
    match found with
    | none => .ok (.callNotFound, none)
    | some call => (applyCallStatus now form call).map fun call => (.ok, some call)

/-- `twilio_status`, which finds the call by its `CallSid`. -/
def twilioStatus (valid : Bool) (search : String → Option Call) (callSid : String) (now : Nat) (form : StatusForm) :
    Except Fault (HttpReply × Option Call) := statusCallback valid (search callSid) now form

/-- `event` of the general webhook. -/
inductive PbxEvent
  | ringing | answered | ended | voicemail
  | other (text : String)
deriving DecidableEq

/-- The body of the general webhook. -/
structure PbxBody where
  event : Option PbxEvent
  callUid : CharField
  direction : CharField := none
  fromNumber : CharField := none
  toNumber : CharField := none
  queueCode : CharField := none
  agentExtension : CharField := none
  recordingUrl : CharField := none
deriving DecidableEq

inductive PbxReply
  | error (message : String)
  | alreadyExists (call : String)
  | created (call : String)
  | updated (call : String) (state : CallState)
deriving DecidableEq

/-- What is read of other tables to make a call, and the next number of the sequence. -/
structure Directory where
  name : String
  queue : String → Option Nat
  agent : String → Option Nat

def Directory.find (search : String → Option Nat) (key : CharField) : Option Nat :=
  if key.truthy then key.bind search else none

def directionOf : CharField → Except Fault Direction
  | none => .ok .incoming
  | some text =>
    if text = "in" then .ok .incoming
    else if text = "out" then .ok .outgoing
    else .error .wrongDirection

/-- The call that `ringing` makes. -/
def createCall (directory : Directory) (now : Nat) (body : PbxBody) : Except Fault Call := do
  let direction ← directionOf body.direction
  return {
    name := directory.name
    callUid := body.callUid
    direction := direction
    fromNumber := body.fromNumber
    toNumber := body.toNumber
    agent := Directory.find directory.agent body.agentExtension
    queue := Directory.find directory.queue body.queueCode
    startDatetime := some now }

/-- What an event does to a call that is there; `none` where it is unknown. -/
def pbxWrite (now : Nat) (event : PbxEvent) (recordingUrl : CharField) (call : Call) : Option Call :=
  match event with
  | .answered => some { call with state := .answered, answerDatetime := some now }
  | .ended => some { call with
      state := if call.answerDatetime.isSome then .ended else .missed
      endDatetime := some now
      recordingUrl := if recordingUrl.truthy then recordingUrl else call.recordingUrl }
  | .voicemail => some { call with state := .voicemail, endDatetime := some now }
  | _ => none

/-- `call_event` -/
def callEvent (token expected : String) (directory : Directory) (search : String → Option Call) (now : Nat)
    (body : PbxBody) : Except Fault (PbxReply × Option Call) :=
  if token ≠ expected then .ok (.error "invalid token", none)
  else
    match body.event, (if body.callUid.truthy then body.callUid else none) with
    | some event, some callUid =>
      match event, search callUid with
      | .ringing, some call => .ok (.alreadyExists call.name, some call)
      | .ringing, none =>
        (createCall directory now body).map fun call => (.created call.name, some call)
      | _, none => .ok (.error "call_uid not found", none)
      | event, some call =>
        match pbxWrite now event body.recordingUrl call with
        | none => .ok (.error "unknown event", some call)
        | some call => .ok (.updated call.name call.state, some call)
    | _, _ => .ok (.error "missing event/call_uid", none)

end CallCenter
