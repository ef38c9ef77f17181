import Goultroid.Lib.Text
import Goultroid.Tasks.Types

/-!
# Interaction sessions, their bindings and their callback tokens

The data of `internal/interaction`: sessions (`types.go`), the binding of a session to an actor and a message
(`binding.go`), the limits (`config.go`) and the callback tokens that refer to a session at a revision
(`token.go`). An error is known by its sentinel.
-/

namespace Goultroid.Interaction

open Text (trimSpace)

/-- The sentinel errors of the package. `context`, `store`, `identifier` and `preparer` are errors of the caller's
context, of the durable store, of the generator of session ids and of an action preparer. -/
inductive Err where
  | closed
  | invalidConfig
  | invalidFeature
  | invalidBinding
  | invalidTTL
  | stateTooLarge
  | capacity
  | notFound
  | expired
  | scopeStale
  | bindingMismatch
  | revisionConflict
  | targetBound
  | actionNotFound
  | staleToken
  | inputBusy
  | inputExpired
  | invalidCallbackToken
  | callbackDataTooLong
  | handlerRegistered
  | handlerUnavailable
  | context
  | store
  | identifier
  | preparer
  deriving DecidableEq

def isZero (scope : ScopeIdentity) : Bool := decide (scope.owner = [] ∧ scope.generation = 0)

/-! ### Bindings -/

structure TargetBinding where
  chatID : Int := 0
  messageID : Int := 0
  inlineMessageID : GoString := []
  deriving DecidableEq

/-- `validateComplete`: the error, if there is one. -/
def TargetBinding.validateComplete (t : TargetBinding) : Option Err :=
  if trimSpace t.inlineMessageID ≠ [] then
    if t.chatID ≠ 0 ∨ t.messageID ≠ 0 then some .invalidBinding else none
  else if t.chatID = 0 ∨ t.messageID ≤ 0 then some .invalidBinding
  else none

/-- Zero fields are unbound dimensions. -/
structure Binding where
  actorID : Int := 0
  chatID : Int := 0
  messageID : Int := 0
  inlineMessageID : GoString := []
  deriving DecidableEq

namespace Binding

/-- `Validate`: the error, if there is one. -/
def validate (b : Binding) : Option Err :=
  let inlineID := trimSpace b.inlineMessageID
  if inlineID ≠ [] ∧ (b.chatID ≠ 0 ∨ b.messageID ≠ 0) then some .invalidBinding
  else if b.messageID < 0 then some .invalidBinding
  else if b.messageID > 0 ∧ b.chatID = 0 then some .invalidBinding
  else if b.actorID = 0 ∧ b.chatID = 0 ∧ b.messageID = 0 ∧ inlineID = [] then some .invalidBinding
  else none

def withTarget (b : Binding) (target : TargetBinding) : Except Err Binding :=
  match target.validateComplete with
  | some err => .error err
  | none =>
    if b.inlineMessageID ≠ [] then
      if b.inlineMessageID ≠ target.inlineMessageID then .error .targetBound else .ok b
    else if b.chatID ≠ 0 ∧ target.chatID ≠ b.chatID then .error .targetBound
    else if b.messageID ≠ 0 ∧ target.messageID ≠ b.messageID then .error .targetBound
    else if target.inlineMessageID ≠ [] ∧ (b.chatID ≠ 0 ∨ b.messageID ≠ 0) then .error .targetBound
    else .ok { b with
      chatID := target.chatID
      messageID := target.messageID
      inlineMessageID := trimSpace target.inlineMessageID }

end Binding

/-! ### Sessions -/

structure Session where
  id : GoString
  featureID : GoString
  scope : ScopeIdentity
  binding : Binding
  state : List UInt8
  revision : Nat
  createdAt : Time
  expiresAt : Time
  deriving DecidableEq

/-- `UpdateRequest` and `InputRequest`, which have the same fields. -/
structure UpdateRequest where
  expectedRevision : Nat
  state : List UInt8 := []
  ttl : Duration := 0
  deriving DecidableEq

def normalizeFeatureID (value : GoString) : GoString := Text.toLower (trimSpace value)

def identifierByte (b : UInt8) : Bool :=
  (0x61 ≤ b && b ≤ 0x7A) || (0x30 ≤ b && b ≤ 0x39) || b == 0x2E || b == 0x5F || b == 0x2D

def validIdentifier (value : GoString) : Bool :=
  decide (value ≠ []) && decide (value = Text.toLower value) && value.all identifierByte

/-! ### Limits -/

structure Config where
  maxSessions : Int := 0
  maxSessionsPerScope : Int := 0
  maxSessionsPerActor : Int := 0
  maxStateBytes : Int := 0
  maxTotalStateBytes : Int := 0
  defaultTTL : Duration := 0
  maxTTL : Duration := 0
  deriving DecidableEq

def orDefault (value fallback : Int) : Int := if value = 0 then fallback else value

def second : Duration := 1000000000

def Config.withDefaults (c : Config) : Config where
  maxSessions := orDefault c.maxSessions 4096
  maxSessionsPerScope := orDefault c.maxSessionsPerScope 512
  maxSessionsPerActor := orDefault c.maxSessionsPerActor 64
  maxStateBytes := orDefault c.maxStateBytes (64 * 1024)
  maxTotalStateBytes := orDefault c.maxTotalStateBytes (8 * 1024 * 1024)
  defaultTTL := orDefault c.defaultTTL (15 * 60 * second)
  maxTTL := orDefault c.maxTTL (24 * 3600 * second)

def Config.normalized (c : Config) : Option Config :=
  if c.maxSessions < 0 ∨ c.maxSessionsPerScope < 0 ∨ c.maxSessionsPerActor < 0 ∨ c.maxStateBytes < 0 ∨
      c.maxTotalStateBytes < 0 ∨ c.defaultTTL < 0 ∨ c.maxTTL < 0 then none
  else if c.withDefaults.defaultTTL > c.withDefaults.maxTTL then none
  else if c.withDefaults.maxStateBytes > c.withDefaults.maxTotalStateBytes then none
  else some c.withDefaults

/-! ### Callback tokens -/

def callbackVersion : GoString := goString "a2"

def maxCallbackDataBytes : Nat := 64

def sessionIDLength : Nat := 22

/-- `callbackTokenFixedBytes`: the version, two colons, the session id, a dot and 13 digits. -/
def callbackTokenFixedBytes : Nat := 2 + 2 + sessionIDLength + 1 + 13

def maxCallbackActionIDBytes : Nat := maxCallbackDataBytes - callbackTokenFixedBytes

/-- The alphabet of `base64.RawURLEncoding`. -/
def base64Byte (b : UInt8) : Bool :=
  (0x41 ≤ b && b ≤ 0x5A) || (0x61 ≤ b && b ≤ 0x7A) || (0x30 ≤ b && b ≤ 0x39) || b == 0x2D || b == 0x5F

/-- 22 characters are 16 bytes and four bits that the decoder ignores. The decoder also skips line breaks, but
then the rest is too short for 16 bytes. -/
def validSessionID (id : GoString) : Bool := decide (id.length = sessionIDLength) && id.all base64Byte

structure CallbackToken where
  featureID : GoString := []
  actionID : GoString
  sessionID : GoString
  revision : Nat
  deriving DecidableEq

/-- `ValidateCallbackActionID`: the error, if there is one. -/
def validateCallbackActionID (actionID : GoString) : Option Err :=
  if validIdentifier (normalizeFeatureID actionID) = false then some .invalidCallbackToken
  else if (normalizeFeatureID actionID).length > maxCallbackActionIDBytes then some .callbackDataTooLong
  else none

/-- The bytes `a2:<action>:<session>.<revision>`. -/
def tokenBytes (actionID sessionID : GoString) (revision : Nat) : GoString :=
  callbackVersion ++ goString ":" ++ actionID ++ goString ":" ++ sessionID ++ goString "." ++ Text.formatUint36 revision

def encodeCallbackToken (featureID actionID sessionID : GoString) (revision : Nat) : Except Err GoString :=
  if validIdentifier (normalizeFeatureID featureID) = false ∨ validSessionID sessionID = false ∨ revision = 0 then
    .error .invalidCallbackToken
  else match validateCallbackActionID (normalizeFeatureID actionID) with
    | some err => .error err
    | none =>
      let raw := tokenBytes (normalizeFeatureID actionID) sessionID revision
      if raw.length > maxCallbackDataBytes then .error .callbackDataTooLong else .ok raw

def parseCallbackToken (data : GoString) : Except Err CallbackToken :=
  if data.length = 0 ∨ data.length > maxCallbackDataBytes then .error .invalidCallbackToken
  else match data.splitOn 0x3A with
    | [version, actionID, opaqueID] =>
      if version ≠ callbackVersion ∨ normalizeFeatureID actionID ≠ actionID ∨
          validateCallbackActionID actionID ≠ none then .error .invalidCallbackToken
      else match opaqueID.splitOn 0x2E with
        | [sessionID, digits] =>
          if validSessionID sessionID = false then .error .invalidCallbackToken
          else match Text.parseUint36 digits with
            | none => .error .invalidCallbackToken
            | some revision =>
              if revision = 0 then .error .invalidCallbackToken
              else .ok { actionID := actionID, sessionID := sessionID, revision := revision }
        | _ => .error .invalidCallbackToken
    | _ => .error .invalidCallbackToken

end Goultroid.Interaction
