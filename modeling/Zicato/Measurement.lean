import Zicato.PyExcept
import Zicato.PyInt
import Zicato.PyValue

/-! # Measurement ids and artifact paths

`zicato/core/measurement.py`, and the run ids of `zicato/core/workspace.py`.  The
decoders read integers with `int`, which accepts other spellings than the encoders
write, and encode what they read again to refuse those. -/
namespace Zicato.Measurement

/-- What the ids use of the interpreter and of `json` and `hashlib`. -/
structure Runtime where
  /-- The value of a decimal digit of Unicode. -/
  digit : Char → Option Nat
  /-- `json.dumps(coordinates, ensure_ascii=True)`. -/
  dumps : List Text → Text
  /-- `hashlib.sha256(text.encode()).hexdigest()`. -/
  sha256 : Text → Text
  /-- `repr(text)`. -/
  repr : Text → String

variable (rt : Runtime)

/-! ## Draws -/

/-- `MeasurementPurpose`. -/
inductive MeasurementPurpose
  | tournament
  | calibration
  | preflight
  | screen
  | confirmation
  | reflection
  | admission
  deriving DecidableEq, Repr

namespace MeasurementPurpose

/-- The value of a purpose. -/
def value : MeasurementPurpose → String
  | tournament => "tournament"
  | calibration => "calibration"
  | preflight => "contract_preflight"
  | screen => "candidate_screen"
  | confirmation => "evidence_confirmation"
  | reflection => "board_reflection"
  | admission => "eval_synthesis_admission"

/-- Every purpose. -/
def all : List MeasurementPurpose :=
  [tournament, calibration, preflight, screen, confirmation, reflection, admission]

/-- The value of a purpose as text. -/
def text (p : MeasurementPurpose) : Text := p.value.toList

/-- `MeasurementPurpose(text)`. -/
def of? (text : Text) : Option MeasurementPurpose := all.find? fun p => decide (p.text = text)

end MeasurementPurpose

/-- `MeasurementDraw`; its check of the draw is that it is natural. -/
structure MeasurementDraw where
  purpose : MeasurementPurpose
  draw : Nat
  baseSeed : Option Int := none
  deriving DecidableEq

/-- `MeasurementDraw(purpose, draw, base_seed)` of an integer. -/
def MeasurementDraw.make (purpose : MeasurementPurpose) (draw : Int) (baseSeed : Option Int) :
    Except String MeasurementDraw :=
  match draw with
  | .ofNat n => .ok ⟨purpose, n, baseSeed⟩
  | .negSucc _ => .error "measurement draw must be a nonnegative integer"

/-- `BaseSeed`: unknown, or recorded. -/
inductive BaseSeed
  | unknown
  | known (seed : Option Int)

/-- `seed_qualifier`. -/
def seedQualifier : BaseSeed → Text
  | .unknown => []
  | .known none => "seed-none".toList
  | .known (some seed) => "seed-".toList ++ PyInt.str seed

/-- `_seed_from_qualifier`. -/
def seedFromQualifier (value : Text) : Except String (Option Int) :=
  let refused : Except String (Option Int) :=
    .error ("invalid measurement seed directory " ++ rt.repr value)
  if value = "seed-none".toList then .ok none
  else
    match Text.after? "seed-" value with
    | none => refused
    | some digits =>
        match PyInt.ofText rt.digit digits with
        | none => refused
        | some seed =>
            if seedQualifier (.known (some seed)) = value then .ok (some seed) else refused

/-- The seed an encoder writes: its argument, or else that of the draw. -/
def seedOf (measurement : MeasurementDraw) : BaseSeed → BaseSeed
  | .unknown => .known measurement.baseSeed
  | seed => seed

/-! ## JSON -/

section Json

variable {F : Type}

/-- `to_json`. -/
def toJson (m : MeasurementDraw) : PyValue F :=
  .dict [("purpose", .str m.purpose.value), ("draw", .int m.draw),
    ("base_seed", (m.baseSeed.map PyValue.int).getD .none)]

/-- `MeasurementPurpose(value)`. -/
@[grind =] def purposeOf : PyValue F → Except String MeasurementPurpose
  | .str s =>
      match MeasurementPurpose.of? s.toList with
      | some p => .ok p
      | none => .error "not a valid MeasurementPurpose"
  | _ => .error "not a valid MeasurementPurpose"

/-- The checks of `__post_init__` on parsed values. -/
def construct (purpose : MeasurementPurpose) (draw baseSeed : PyValue F) :
    Except String MeasurementDraw :=
  match draw with
  | .int n =>
      match baseSeed with
      | .none => MeasurementDraw.make purpose n none
      | .int seed => MeasurementDraw.make purpose n (some seed)
      | _ => (MeasurementDraw.make purpose n none).bind fun _ =>
          .error "measurement base seed must be an integer or null"
  | _ => .error "measurement draw must be a nonnegative integer"

/-- `from_json`. -/
def fromJson : PyValue F → Except String MeasurementDraw
  | .dict fields =>
      if sameKeys fields ["purpose", "draw", "base_seed"] then do
        let purpose ← purposeOf (Dict.getD fields "purpose" .none)
        construct purpose (Dict.getD fields "draw" .none) (Dict.getD fields "base_seed" .none)
      else .error "measurement requires purpose, draw, and base_seed"
  | _ => .error "measurement requires purpose, draw, and base_seed"

end Json

/-! ## Artifact names -/

/-- The artifacts that are JSON lines. -/
def jsonLines : List Text := ["events".toList, "judge_io".toList]

/-- The extension of an artifact. -/
def extension (artifact : Text) : Text :=
  if artifact ∈ jsonLines then "jsonl".toList else "json".toList

/-- `unit_artifact_name`. -/
def unitArtifactName (artifact : Text) (m : MeasurementDraw) : Text :=
  artifact ++ '.' :: (m.purpose.text ++ '.' :: 'r' :: (Nat.toDigits 10 m.draw ++
    '.' :: extension artifact))

/-- `[a-z_]`. -/
def isPurposeChar (c : Char) : Bool := c.isLower || c == '_'

/-- `0|[1-9][0-9]*`. -/
def isNumeral (digits : Text) : Bool :=
  digits == ['0'] || (!digits.isEmpty && digits.head? != some '0')

/-- `re.fullmatch(re.escape(artifact) + r"\.([a-z_]+)\.r(0|[1-9][0-9]*)\." + extension, name)`:
the two groups.  Neither class holds a dot, so a group ends at the next one. -/
def matchName (artifact name : Text) : Option (Text × Text) := do
  let rest ← List.dropPrefix? name (artifact ++ ['.'])
  let purpose := rest.takeWhile isPurposeChar
  let rest ← List.dropPrefix? (rest.dropWhile isPurposeChar) ".r".toList
  let number := rest.takeWhile (·.isDigit)
  if purpose ≠ [] ∧ isNumeral number = true ∧
      rest.dropWhile (·.isDigit) = '.' :: extension artifact then
    some (purpose, number)
  else none

/-- `artifact_measurement`. -/
def artifactMeasurement (name artifact : Text) : Option MeasurementDraw := do
  let (purpose, number) ← matchName artifact name
  let purpose ← MeasurementPurpose.of? purpose
  let draw ← PyInt.ofText rt.digit number
  (MeasurementDraw.make purpose draw none).toOption

/-! ## Paths -/

/-- A `PurePosixPath`: its root, empty for a relative path, and its parts. -/
structure PurePath where
  root : Text
  parts : List Text
  deriving DecidableEq

namespace PurePath

/-- `path.name`. -/
def name (p : PurePath) : Text := p.parts.getLast?.getD []

/-- `path.parent`. -/
def parent (p : PurePath) : PurePath := { p with parts := p.parts.dropLast }

/-- The parts of a text: between slashes, without empty ones and single dots. -/
def segments (text : Text) : List Text :=
  (Lines.split '/' text).filter fun s => decide (s ≠ [] ∧ s ≠ ['.'])

/-- `path / text`. -/
def join (p : PurePath) (text : Text) : PurePath :=
  if text.head? = some '/' then ⟨['/'], segments text⟩
  else { p with parts := p.parts ++ segments text }

end PurePath

/-- `measurement_artifact_path`. -/
def measurementArtifactPath (runDir : PurePath) (artifact : Text) (m : MeasurementDraw)
    (baseSeed : BaseSeed := .unknown) : PurePath :=
  (runDir.join (seedQualifier (seedOf m baseSeed))).join (unitArtifactName artifact m)

/-- `recorded_artifact_measurement`. -/
def recordedArtifactMeasurement (runDir path : PurePath) (measurement : Option MeasurementDraw)
    (artifact : Text) : Except String MeasurementDraw :=
  match artifactMeasurement rt path.name artifact with
  | none => .error "artifact path does not identify a measurement in this entry"
  | some expected =>
      if path.parent.parent ≠ runDir then
        .error "artifact path does not identify a measurement in this entry"
      else do
        let seed ← seedFromQualifier rt path.parent.name
        let expected := { expected with baseSeed := seed }
        if measurement = some expected then .ok expected
        else .error "recorded measurement conflicts with its artifact path"

/-! ## Run ids -/

/-- `run_id_for_unit`. -/
def runIdForUnit (generationId entryId : Text) (m : MeasurementDraw) (epochId : Text)
    (baseSeed : BaseSeed := .unknown) : Text :=
  seedQualifier (seedOf m baseSeed) ++ '.' :: (m.purpose.text ++ '.' :: 'r' ::
    (Nat.toDigits 10 m.draw ++ '.' :: rt.sha256 (rt.dumps [epochId, generationId, entryId])))

/-- `text.split(sep, maxsplit)`. -/
@[grind =] def splitMax (sep : Char) : Nat → Text → List Text
  | 0, text => [text]
  | n + 1, text =>
      match text.dropWhile (· != sep) with
      | [] => [text]
      | _ :: rest => text.takeWhile (· != sep) :: splitMax sep n rest

/-- `measurement_from_run_id`; `ValueError` is none. -/
def measurementFromRunId (generationId entryId runId epochId : Text) : Option MeasurementDraw :=
  match splitMax '.' 3 runId with
  | [seed, purpose, draw, _] => do
      let purpose ← MeasurementPurpose.of? purpose
      let draw ← PyInt.ofText rt.digit ((Text.after? "r" draw).getD draw)
      let seed ← (seedFromQualifier rt seed).toOption
      let m ← (MeasurementDraw.make purpose draw seed).toOption
      if runId = runIdForUnit rt generationId entryId m epochId then some m else none
  | _ => none

end Zicato.Measurement
