import AebNode.Types

/-! The RPLidar device: bring-up, teardown and one revolution of measurements. The vendor SDK
stays outside: what it answers is an argument of each operation, and the calls made to it are
logged beside the two handles the device owns. -/
namespace AebNode

structure LidarConfig where
  serialPort : String := "/dev/ttyUSB0"
  baudrate : UInt32 := 460800
  scanTimeoutMs : UInt32 := 2000
  maxNodesPerScan : ℕ := 8192
  autoReconnect : Bool := true
  deriving DecidableEq, Repr

inductive SlCode
  | ok
  | alreadyDone
  | invalidData
  | operationFail
  | operationTimeout
  | operationStop
  | operationNotSupport
  | formatNotSupport
  | insufficientMemory
  | other
  deriving DecidableEq, Repr

/-- A result of the SDK and whether `SL_IS_OK` accepts it. -/
structure SlResult where
  isOk : Bool
  code : SlCode
  deriving DecidableEq, Repr

def describe : SlCode → String
  | .ok => "ok"
  | .alreadyDone => "already done"
  | .invalidData => "invalid data"
  | .operationFail => "operation failed"
  | .operationTimeout => "operation timed out"
  | .operationStop => "operation stopped"
  | .operationNotSupport => "operation not supported"
  | .formatNotSupport => "format not supported"
  | .insufficientMemory => "insufficient memory"
  | .other => "unknown error"

/-- One raw measurement of the SDK: a Q14 angle, a Q2 distance and a quality. -/
structure MeasurementNode where
  angleZQ14 : UInt16
  distMmQ2 : UInt32
  quality : UInt8
  deriving DecidableEq, Repr

/-- An integer converted to binary32: 24 significant bits, ties to even. -/
def roundToFloat (n : ℕ) : ℕ :=
  let unit := 2 ^ (n.log2 - 23)
  let quotient := n / unit
  let remainder := n % unit
  if unit < 2 * remainder ∨ unit = 2 * remainder ∧ quotient % 2 = 1 then (quotient + 1) * unit
  else quotient * unit

/-- The product fits in 24 bits and the divisor is a power of two: binary32 is exact here. -/
def toDegrees (angleZQ14 : UInt16) : ℚ := roundToFloat angleZQ14.toNat * 90 / 16384

def toMillimetres (distMmQ2 : UInt32) : ℚ := roundToFloat distMmQ2.toNat / 4

example : toDegrees 16384 = 90 := by decide +kernel

theorem roundToFloat_pos {n : ℕ} : 0 < roundToFloat n ↔ 0 < n := by
  simp only [roundToFloat]
  have hunit : 0 < 2 ^ (n.log2 - 23) := Nat.two_pow_pos _
  constructor
  · intro h
    by_contra hn
    obtain rfl : n = 0 := by omega
    simp at h
  · intro hn
    have hle : 2 ^ (n.log2 - 23) ≤ n :=
      (Nat.pow_le_pow_right (by decide) (Nat.sub_le _ _)).trans (Nat.log2_self_le (by omega))
    have hquotient : 0 < n / 2 ^ (n.log2 - 23) := Nat.div_pos hle hunit
    split_ifs
    · exact Nat.mul_pos (Nat.succ_pos _) hunit
    · exact Nat.mul_pos hquotient hunit

/-- Only the "no return" marker converts to a distance of zero. -/
theorem toMillimetres_pos (distMmQ2 : UInt32) : 0 < toMillimetres distMmQ2 ↔ distMmQ2 ≠ 0 := by
  have hdiv : 0 < toMillimetres distMmQ2 ↔ 0 < roundToFloat distMmQ2.toNat := by
    simp [toMillimetres]
  have hzero : distMmQ2.toNat = 0 ↔ distMmQ2 = 0 := by
    rw [← UInt32.toNat_inj]
    rfl
  rw [hdiv, roundToFloat_pos, Nat.pos_iff_ne_zero, ne_eq, hzero]

/-- A call made to the SDK. A channel and a driver are known by the place in the log of the
call that created them. -/
inductive SdkCall
  | createSerialPortChannel (port : String) (baudrate : UInt32) (succeeds : Bool)
  | createLidarDriver (succeeds : Bool)
  | connect (driver channel : ℕ)
  | getDeviceInfo (driver : ℕ)
  | setMotorSpeed (driver : ℕ) (speed : Option ℕ)
  | startScan (driver : ℕ)
  | grabScanDataHq (driver count : ℕ) (timeoutMs : UInt32)
  | ascendScanData (driver : ℕ)
  | stop (driver : ℕ)
  | deleteDriver (driver : ℕ)
  | deleteChannel (channel : ℕ)
  deriving DecidableEq, Repr

structure RpLidarDevice where
  driver : Option ℕ := none
  channel : Option ℕ := none
  calls : List SdkCall := []
  deriving DecidableEq, Repr

/-- What the SDK answers in the course of one bring-up, as far as it is asked. -/
structure BringUp where
  createSerialPortChannel : Bool
  createLidarDriver : Bool
  connect : SlResult
  getDeviceInfo : SlResult
  setMotorSpeed : SlResult
  startScan : SlResult
  deriving DecidableEq, Repr

/-- What the SDK answers to one grab: the result, and the nodes it left in the buffer once they
are sorted by bearing. -/
structure Revolution where
  result : SlResult
  nodes : List MeasurementNode
  deriving DecidableEq, Repr

namespace RpLidarDevice

def call (device : RpLidarDevice) (c : SdkCall) : RpLidarDevice :=
  { device with calls := device.calls ++ [c] }

def isOpen (device : RpLidarDevice) : Bool := device.driver.isSome

def closeDriver (device : RpLidarDevice) : RpLidarDevice :=
  match device.driver with
  | some driver =>
    { (((device.call (.stop driver)).call (.setMotorSpeed driver (some 0))).call
        (.deleteDriver driver)) with driver := none }
  | none => device

def closeChannel (device : RpLidarDevice) : RpLidarDevice :=
  match device.channel with
  | some channel => { (device.call (.deleteChannel channel)) with channel := none }
  | none => device

/-- The channel is deleted after the driver, which refers to it. -/
def close (device : RpLidarDevice) : RpLidarDevice := device.closeDriver.closeChannel

def connectAndScan (config : LidarConfig) (device : RpLidarDevice) (driver channel : ℕ)
    (sdk : BringUp) : RpLidarDevice × Except String Unit :=
  let device := device.call (.connect driver channel)
  if ¬ sdk.connect.isOk then
    (device.close, .error ("connect to " ++ config.serialPort ++ " failed: "
      ++ describe sdk.connect.code))
  else
    let device := device.call (.getDeviceInfo driver)
    if ¬ sdk.getDeviceInfo.isOk then
      (device.close, .error ("getDeviceInfo failed: " ++ describe sdk.getDeviceInfo.code))
    else
      let device := device.call (.setMotorSpeed driver none)
      -- Firmware without a separately controlled motor is not at fault.
      if ¬ sdk.setMotorSpeed.isOk ∧ sdk.setMotorSpeed.code ≠ .operationNotSupport then
        (device.close, .error ("setMotorSpeed failed: " ++ describe sdk.setMotorSpeed.code))
      else
        let device := device.call (.startScan driver)
        if ¬ sdk.startScan.isOk then
          (device.close, .error ("startScan failed: " ++ describe sdk.startScan.code))
        else (device, .ok ())

end RpLidarDevice

/-- Bring the device up from whatever state it is in. -/
def RpLidarDevice.open (config : LidarConfig) (device : RpLidarDevice) (sdk : BringUp) :
    RpLidarDevice × Except String Unit :=
  let device := device.close
  let channel := device.calls.length
  let device := device.call (.createSerialPortChannel config.serialPort config.baudrate
    sdk.createSerialPortChannel)
  if ¬ sdk.createSerialPortChannel then
    (device, .error ("failed to create serial channel on " ++ config.serialPort))
  else
    let device := { device with channel := some channel }
    let driver := device.calls.length
    let device := device.call (.createLidarDriver sdk.createLidarDriver)
    if ¬ sdk.createLidarDriver then (device.close, .error "failed to create lidar driver")
    else connectAndScan config { device with driver := some driver } driver channel sdk

namespace RpLidarDevice

/-- The body of the conversion loop. -/
def pushPoint (points : List (ScanPoint ℚ)) (node : MeasurementNode) : List (ScanPoint ℚ) :=
  let distanceMm := toMillimetres node.distMmQ2
  if distanceMm ≤ 0 then points
  else points ++ [⟨toDegrees node.angleZQ14, distanceMm, node.quality⟩]

/-- Fetch one revolution into `points`, which a failure leaves as they are. -/
def grabScan (config : LidarConfig) (device : RpLidarDevice) (points : List (ScanPoint ℚ))
    (sdk : Revolution) : RpLidarDevice × List (ScanPoint ℚ) × Except String Unit :=
  match device.driver with
  | none => (device, points, .error "grabScan called on a closed device")
  | some driver =>
    let device := device.call
      (.grabScanDataHq driver config.maxNodesPerScan config.scanTimeoutMs)
    if ¬ sdk.result.isOk then
      (device, points, .error ("grabScanDataHq failed: " ++ describe sdk.result.code))
    else (device.call (.ascendScanData driver), sdk.nodes.foldl pushPoint [], .ok ())

end RpLidarDevice

/-- The measurements of a revolution that saw something, as points. -/
def Revolution.points (revolution : Revolution) : List (ScanPoint ℚ) :=
  (revolution.nodes.filter fun node => node.distMmQ2 ≠ 0).map fun node =>
    ⟨toDegrees node.angleZQ14, toMillimetres node.distMmQ2, node.quality⟩

theorem Revolution.points_pos {revolution : Revolution} {p : ScanPoint ℚ}
    (h : p ∈ revolution.points) : 0 < p.distanceMm := by
  obtain ⟨node, hnode, rfl⟩ := List.mem_map.mp h
  simp only [List.mem_filter, decide_eq_true_eq] at hnode
  exact (toMillimetres_pos _).mpr hnode.2

namespace RpLidarDevice

theorem foldl_pushPoint (nodes : List MeasurementNode) (points : List (ScanPoint ℚ)) :
    nodes.foldl pushPoint points =
      points ++ (nodes.filter fun node => node.distMmQ2 ≠ 0).map fun node =>
        ⟨toDegrees node.angleZQ14, toMillimetres node.distMmQ2, node.quality⟩ := by
  induction nodes generalizing points with
  | nil => simp
  | cons node nodes ih =>
    rw [List.foldl_cons, ih, pushPoint]
    have hpos := toMillimetres_pos node.distMmQ2
    by_cases hlt : 0 < toMillimetres node.distMmQ2
    · simp [not_le.mpr hlt, hpos.mp hlt]
    · have hnode : node.distMmQ2 = 0 := by
        by_contra hne
        exact hlt (hpos.mpr hne)
      rw [List.filter_cons_of_neg (by simp [hnode])]
      simp [not_lt.mp hlt]

/-- A grab either fails and keeps the points, or replaces them by those of the revolution. -/
theorem grabScan_spec (config : LidarConfig) (device : RpLidarDevice)
    (points : List (ScanPoint ℚ)) (sdk : Revolution) :
    (∃ message, (device.grabScan config points sdk).2 = (points, .error message) ∧
        (device.isOpen = false ∨ sdk.result.isOk = false)) ∨
      (device.grabScan config points sdk).2 = (sdk.points, .ok ()) ∧
        device.isOpen = true ∧ sdk.result.isOk = true := by
  simp only [grabScan, isOpen]
  cases hdriver : device.driver with
  | none => exact Or.inl ⟨_, rfl, Or.inl rfl⟩
  | some driver =>
    cases hok : sdk.result.isOk with
    | false => exact Or.inl ⟨_, rfl, Or.inr rfl⟩
    | true =>
      refine Or.inr ⟨?_, rfl, rfl⟩
      simp [foldl_pushPoint, Revolution.points]

@[simp] theorem close_driver (device : RpLidarDevice) : device.close.driver = none := by
  have hdriver : device.closeDriver.driver = none := by
    cases h : device.driver <;> simp [closeDriver, h]
  cases h : device.closeDriver.channel <;> simp [close, closeChannel, h, hdriver, call]

@[simp] theorem close_channel (device : RpLidarDevice) : device.close.channel = none := by
  cases h : device.closeDriver.channel <;> simp [close, closeChannel, h]

@[simp] theorem close_isOpen (device : RpLidarDevice) : device.close.isOpen = false := by
  simp [isOpen]

/-- A bring-up leaves the device open exactly if it reports success. -/
theorem open_isOpen (config : LidarConfig) (device : RpLidarDevice) (sdk : BringUp) :
    (device.open config sdk).1.isOpen = true ↔ (device.open config sdk).2 = .ok () := by
  simp only [RpLidarDevice.open, connectAndScan]
  split_ifs <;> simp [isOpen, call]

end RpLidarDevice

end AebNode
