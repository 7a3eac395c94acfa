import AebNode.NumberParsing
import AebNode.Perception
import AebNode.RpLidarDevice

/-! The command line: from the argument vector to the options of the node. `width` is the number
of bits of an `unsigned long`. -/
namespace AebNode.CommandLine
open Binary32 NumberParsing Perception

structure CanBusConfig where
  interface : String := "can0"
  deriving DecidableEq, Repr

/-- Of the server's configuration, what an option can set. -/
structure TcpServerConfig where
  port : UInt16 := 7000
  deriving DecidableEq, Repr

/-- The thresholds of `PerceptionConfig` as they are stored, in binary32. -/
structure Thresholds where
  minAngleDeg : FloatBits := 0xC2340000
  maxAngleDeg : FloatBits := 0x42340000
  maxDistanceMm : FloatBits := 0x44FA0000
  minimumQuality : UInt8 := 15
  minHitsPerSector : UInt32 := 3
  deriving DecidableEq, Repr

namespace Thresholds

def stored (t : Thresholds) : PerceptionConfig Value where
  minAngleDeg := .ofBits t.minAngleDeg
  maxAngleDeg := .ofBits t.maxAngleDeg
  maxDistanceMm := .ofBits t.maxDistanceMm
  minimumQuality := t.minimumQuality
  minHitsPerSector := t.minHitsPerSector

/-- The configuration with the numbers that finite thresholds denote. -/
def config (t : Thresholds) : PerceptionConfig ℚ where
  minAngleDeg := floatValue t.minAngleDeg
  maxAngleDeg := floatValue t.maxAngleDeg
  maxDistanceMm := floatValue t.maxDistanceMm
  minimumQuality := t.minimumQuality
  minHitsPerSector := t.minHitsPerSector

def Finite (t : Thresholds) : Prop :=
  IsFinite t.minAngleDeg ∧ IsFinite t.maxAngleDeg ∧ IsFinite t.maxDistanceMm

instance (t : Thresholds) : Decidable t.Finite := instDecidableAnd

end Thresholds

structure Options where
  lidar : LidarConfig := {}
  canbus : CanBusConfig := {}
  noCan : Bool := false
  tcpServer : TcpServerConfig := {}
  perception : Thresholds := {}
  healthIntervalS : UInt32 := 5
  deriving DecidableEq, Repr

def kMaxNumericValue : ℕ := 0xFFFFFFFF

/-- The value written to `out` on success, the text written to `error` on failure. -/
def parseUnsigned (width : ℕ) (text option : String) : Except String UInt32 :=
  if text = "" then .error (option ++ " requires a number")
  else
    let parsed := strtoul width (cString text)
    if parsed.outOfRange ∨ parsed.rest ≠ [] ∨ kMaxNumericValue < parsed.value then
      .error (option ++ ": '" ++ text ++ "' is not a valid number")
    else .ok (UInt32.ofNat parsed.value)

/-- The `try` block around `std::stof`. -/
def parseFloat (text option : String) : Except String FloatBits :=
  match stof text.toList with
  | some bits => .ok bits
  | none => .error (option ++ ": '" ++ text ++ "' is not a valid float")

/-- An option that takes no value; `none` if `arg` is not one. -/
def applyFlag (arg : String) (out : Options) : Option Options :=
  if arg = "--no-reconnect" then some { out with lidar.autoReconnect := false }
  else if arg = "--no-can" then some { out with noCan := true }
  else none

def applyValued (width : ℕ) (arg value : String) (out : Options) : Except String Options :=
  if arg = "--device" then .ok { out with lidar.serialPort := value }
  else if arg = "--baud" then
    (parseUnsigned width value arg).map fun n => { out with lidar.baudrate := n }
  else if arg = "--scan-timeout-ms" then
    (parseUnsigned width value arg).map fun n => { out with lidar.scanTimeoutMs := n }
  else if arg = "--can-interface" then .ok { out with canbus.interface := value }
  else if arg = "--health-interval" then
    (parseUnsigned width value arg).map fun n => { out with healthIntervalS := n }
  else if arg = "--tcp-port" then
    (parseUnsigned width value arg).map fun n => { out with tcpServer.port := n.toUInt16 }
  else if arg = "--min-angle" then
    (parseFloat value arg).map fun x => { out with perception.minAngleDeg := x }
  else if arg = "--max-angle" then
    (parseFloat value arg).map fun x => { out with perception.maxAngleDeg := x }
  else if arg = "--max-distance" then
    (parseFloat value arg).map fun x => { out with perception.maxDistanceMm := x }
  else if arg = "--min-quality" then
    (parseUnsigned width value arg).map fun n => { out with perception.minimumQuality := n.toUInt8 }
  else if arg = "--min-hits" then
    (parseUnsigned width value arg).map fun n => { out with perception.minHitsPerSector := n }
  else .error ("unknown option " ++ arg)

/-- The loop over the arguments: the options, if any, and the text left in `error`. -/
def parseLoop (width : ℕ) : List String → Options → Option Options × String
  | [], options => (some options, "")
  | arg :: rest, options =>
    if arg = "--help" ∨ arg = "-h" then (none, "")
    else match applyFlag arg options with
      | some options => parseLoop width rest options
      | none =>
        match rest with
        | [] => (none, "missing value for option " ++ arg)
        | value :: rest =>
          match applyValued width arg value options with
          | .error error => (none, error)
          | .ok options => parseLoop width rest options

/-- `CommandLine::parse`; the first argument is the name of the program. -/
def parse (width : ℕ) (argv : List String) : Option Options × String :=
  parseLoop width (argv.drop 1) {}

example : parse 32 ["aeb_node", "--min-quality", "20", "--no-can"] =
    (some { noCan := true, perception.minimumQuality := 20 }, "") := by decide +kernel

end AebNode.CommandLine
