import Goultroid.Tasks.Types

/-!
# Retained-memory accounting

`internal/taskengine/accounting.go`: what a submitted spec is charged, what of it is given back when
its record settles, and the caps on stored results. The defensive copies of the source (`freezePayload`,
`freezeWorkSpecMetadata`, `strings.Clone`) are the identity on values and are left out.
-/

namespace Goultroid

def taskOverheadBytes : Int := 512
def jobRefBytes : Int := 128
def resourceRequirementBytes : Int := 32

def defaultMaxRetainedBytes : Int := 256 * 2 ^ 20
def defaultMaxOutputBytes : Int := 2 ^ 20
def defaultMaxFailureBytes : Int := 4096

def jobMetadataBytes : Option OccurrenceRef → Int
  | none => 0
  | some ref =>
    jobRefBytes + (ref.jobID.length + ref.occurrenceID.length + ref.attemptID.length)

def resourceMetadataBytes (resources : List ResourceRequirement) : Int :=
  resources.foldl (fun bytes requirement => bytes + requirement.name.length)
    (resources.length * resourceRequirementBytes)

def workSpecMetadataBytes (spec : WorkSpec) : Int :=
  (spec.id.length + spec.scope.owner.length + spec.quotaOwner.length + spec.pool.length +
    spec.cls.text.length + spec.orderingKey.length + spec.handlerRef.length) +
    jobMetadataBytes spec.job + resourceMetadataBytes spec.resources

/-- The attempt id stays reachable through the result, so it stays charged. -/
def terminalDetachedJobBytes : Option OccurrenceRef → Int
  | none => 0
  | some ref => jobRefBytes + (ref.jobID.length + ref.occurrenceID.length)

/-- `payloadSize`; `none` stands for the unsupported-payload error. -/
def payloadSize : Payload → Option Int
  | .nil => some 0
  | .string s => some s.length
  | .bytes b => some b.length
  | .byteArray b => some b.length
  | .scalar size => some size
  | .mutable => none

/-- What becomes unreachable when a record settles. -/
def terminalDetachedSpecBytes (spec : WorkSpec) : Int :=
  (payloadSize spec.input).getD 0 + (spec.orderingKey.length + spec.handlerRef.length) +
    terminalDetachedJobBytes spec.job + resourceMetadataBytes spec.resources

/-- What a spec is charged to its pool and owner while it waits. -/
def admissionBytes (spec : WorkSpec) : Int :=
  (payloadSize spec.input).getD 0 + if spec.job.isSome then jobRefBytes else 0

/-- What a spec is charged to the engine from its admission on. -/
def retainedCharge (spec : WorkSpec) : Int :=
  taskOverheadBytes + (payloadSize spec.input).getD 0 + workSpecMetadataBytes spec

/-- `capOutput`: byte slices and strings are kept up to the cap, anything else is dropped. -/
def capOutput (output : Payload) (maxBytes : Int) : Payload × Int :=
  match output with
  | .bytes b =>
    let limit := if 0 < maxBytes ∧ maxBytes < b.length then maxBytes else b.length
    (.bytes (b.take limit.toNat), limit)
  | .string s =>
    if 0 < maxBytes ∧ maxBytes < s.length then (.string (s.take maxBytes.toNat), maxBytes)
    else (.string s, s.length)
  | .nil | .byteArray _ | .scalar _ | .mutable => (.nil, 0)

def truncationMark : GoString := goString "...(truncated)"

def truncateField (s : GoString) (max : Int) : GoString :=
  if max ≤ 0 ∨ s.length ≤ max then s
  else if max ≤ truncationMark.length then s.take max.toNat
  else s.take (max - truncationMark.length).toNat ++ truncationMark

end Goultroid
