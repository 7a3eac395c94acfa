import AebNode.Machine
import AebNode.OwnershipLedger
import AebNode.RpLidarDevice

/-! Who owns the channels and drivers of the SDK. Over any history of openings, closings and
grabs the device is fully open or fully closed, and whatever the SDK handed out and the device
no longer holds was deleted once, the driver before its channel. -/
namespace AebNode
open Ledger Machine

/-- The calls that neither hand out nor connect nor take back anything. -/
def SdkCall.quiet : SdkCall → Bool
  | .createSerialPortChannel _ _ succeeds | .createLidarDriver succeeds => !succeeds
  | .connect _ _ | .deleteDriver _ | .deleteChannel _ => false
  | _ => true

namespace RpLidarDevice

/-! The calls of the log that hand out a channel or a driver, and those that give it back. -/

def channelEntry : SdkCall × ℕ → List (Entry ℕ)
  | (.createSerialPortChannel _ _ true, k) => [.obtained k]
  | (.deleteChannel channel, _) => [.released channel]
  | _ => []

def driverEntry : SdkCall × ℕ → List (Entry ℕ)
  | (.createLidarDriver true, k) => [.obtained k]
  | (.deleteDriver driver, _) => [.released driver]
  | _ => []

def channelLog (calls : List SdkCall) : List (Entry ℕ) := calls.zipIdx.flatMap channelEntry

def driverLog (calls : List SdkCall) : List (Entry ℕ) := calls.zipIdx.flatMap driverEntry

theorem channelLog_append (calls : List SdkCall) (c : SdkCall) :
    channelLog (calls ++ [c]) = channelLog calls ++ channelEntry (c, calls.length) := by
  simp [channelLog, List.zipIdx_append]

theorem driverLog_append (calls : List SdkCall) (c : SdkCall) :
    driverLog (calls ++ [c]) = driverLog calls ++ driverEntry (c, calls.length) := by
  simp [driverLog, List.zipIdx_append]

theorem channelLog_obtained {calls : List SdkCall} {k : ℕ} (h : .obtained k ∈ channelLog calls) :
    k < calls.length := by
  obtain ⟨⟨c, i⟩, hmem, hentry⟩ := List.mem_flatMap.mp h
  have hi := List.snd_lt_of_mem_zipIdx hmem
  unfold channelEntry at hentry
  split at hentry <;> simp_all

theorem driverLog_obtained {calls : List SdkCall} {k : ℕ} (h : .obtained k ∈ driverLog calls) :
    k < calls.length := by
  obtain ⟨⟨c, i⟩, hmem, hentry⟩ := List.mem_flatMap.mp h
  have hi := List.snd_lt_of_mem_zipIdx hmem
  unfold driverEntry at hentry
  split at hentry <;> simp_all

theorem deleteChannel_released {calls : List SdkCall} {channel : ℕ}
    (h : .deleteChannel channel ∈ calls) : .released channel ∈ channelLog calls := by
  obtain ⟨i, hi, hget⟩ := List.mem_iff_getElem.mp h
  refine List.mem_flatMap.mpr ⟨(.deleteChannel channel, i), ?_, by simp [channelEntry]⟩
  rw [List.mem_zipIdx_iff_getElem?]
  simp [hi, hget]

/-- A channel is deleted after the drivers that were connected to it. -/
def DriverFirst (calls : List SdkCall) : Prop :=
  ∀ before channel after driver, calls = before ++ .deleteChannel channel :: after →
    .connect driver channel ∈ calls → .deleteDriver driver ∈ before

theorem driverFirst_append {calls : List SdkCall} {c : SdkCall} (h : DriverFirst calls)
    (hdelete : ∀ channel driver, c = .deleteChannel channel → .connect driver channel ∈ calls →
      .deleteDriver driver ∈ calls)
    (hconnect : ∀ driver channel, c = .connect driver channel → .deleteChannel channel ∉ calls) :
    DriverFirst (calls ++ [c]) := by
  intro before channel after driver hsplit hmem
  rcases append_singleton_eq_iff.mp hsplit with ⟨-, rfl, rfl⟩ | ⟨rest, -, hinit⟩
  · apply hdelete channel driver rfl
    simpa using hmem
  · apply h before channel rest driver hinit
    rcases List.mem_append.mp hmem with hold | hnew
    · exact hold
    · refine absurd ?_ (hconnect driver channel (List.mem_singleton.mp hnew).symm)
      rw [hinit]
      simp

/-- The invariant of the device between two steps of its bring-up or teardown. -/
structure Owned (device : RpLidarDevice) : Prop where
  channels : Balanced (channelLog device.calls) device.channel.toList
  drivers : Balanced (driverLog device.calls) device.driver.toList
  connected : ∀ driver channel, .connect driver channel ∈ device.calls →
    .obtained channel ∈ channelLog device.calls
  linked : ∀ driver channel, .connect driver channel ∈ device.calls →
    device.channel = some channel →
    device.driver = some driver ∨ .deleteDriver driver ∈ device.calls
  order : DriverFirst device.calls

theorem new_owned : Owned {} where
  channels := .nil
  drivers := .nil
  connected _ _ h := by simp at h
  linked _ _ h := by simp at h
  order _ _ _ _ h := by simp at h

theorem Owned.call_quiet {device : RpLidarDevice} (h : Owned device) {c : SdkCall}
    (hc : c.quiet = true) : Owned (device.call c) := by
  have hchannels : channelLog (device.calls ++ [c]) = channelLog device.calls := by
    rw [channelLog_append]
    cases c <;> simp_all [SdkCall.quiet, channelEntry]
  have hdrivers : driverLog (device.calls ++ [c]) = driverLog device.calls := by
    rw [driverLog_append]
    cases c <;> simp_all [SdkCall.quiet, driverEntry]
  have hconnect : ∀ driver channel, .connect driver channel ∈ device.calls ++ [c] →
      .connect driver channel ∈ device.calls := by
    intro driver channel hmem
    rcases List.mem_append.mp hmem with hold | hnew
    · exact hold
    · rw [← List.mem_singleton.mp hnew] at hc
      cases hc
  constructor
  case channels => exact hchannels ▸ h.channels
  case drivers => exact hdrivers ▸ h.drivers
  case connected =>
    intro driver channel hmem
    simp only [call, hchannels]
    exact h.connected driver channel (hconnect driver channel hmem)
  case linked =>
    intro driver channel hmem hheld
    rcases h.linked driver channel (hconnect driver channel hmem) hheld with hd | hd
    · exact Or.inl hd
    · exact Or.inr (List.mem_append_left _ hd)
  case order =>
    refine driverFirst_append h.order ?_ ?_
    · rintro channel driver rfl
      cases hc
    · rintro driver channel rfl
      cases hc

theorem Owned.createChannel {device : RpLidarDevice} (h : Owned device)
    (hnone : device.channel = none) (port : String) (baudrate : UInt32) :
    Owned { device.call (.createSerialPortChannel port baudrate true) with
      channel := some device.calls.length } := by
  have hchannels := h.channels
  rw [hnone] at hchannels
  have hfresh : .obtained device.calls.length ∉ channelLog device.calls :=
    fun hmem => lt_irrefl _ (channelLog_obtained hmem)
  have hconnect : ∀ driver channel, .connect driver channel ∈
      device.calls ++ [.createSerialPortChannel port baudrate true] →
      .connect driver channel ∈ device.calls := by
    intro driver channel hmem
    simpa using hmem
  constructor
  case channels =>
    simp only [call, channelLog_append, channelEntry, Option.toList_some]
    exact hchannels.obtain hfresh
  case drivers =>
    simp only [call, driverLog_append, driverEntry, List.append_nil]
    exact h.drivers
  case connected =>
    intro driver channel hmem
    simp only [call, channelLog_append]
    exact List.mem_append_left _ (h.connected driver channel (hconnect driver channel hmem))
  case linked =>
    -- Nothing was ever connected to the new channel.
    intro driver channel hmem hheld
    obtain rfl := Option.some.inj hheld
    exact absurd (h.connected driver _ (hconnect driver _ hmem)) hfresh
  case order => exact driverFirst_append h.order (by simp) (by simp)

theorem Owned.createDriver {device : RpLidarDevice} (h : Owned device)
    (hnone : device.driver = none) :
    Owned { device.call (.createLidarDriver true) with driver := some device.calls.length } := by
  have hdrivers := h.drivers
  rw [hnone] at hdrivers
  have hfresh : .obtained device.calls.length ∉ driverLog device.calls :=
    fun hmem => lt_irrefl _ (driverLog_obtained hmem)
  have hconnect : ∀ driver channel,
      .connect driver channel ∈ device.calls ++ [.createLidarDriver true] →
      .connect driver channel ∈ device.calls := by
    intro driver channel hmem
    simpa using hmem
  constructor
  case channels =>
    simp only [call, channelLog_append, channelEntry, List.append_nil]
    exact h.channels
  case drivers =>
    simp only [call, driverLog_append, driverEntry, Option.toList_some]
    exact hdrivers.obtain hfresh
  case connected =>
    intro driver channel hmem
    simp only [call, channelLog_append]
    exact List.mem_append_left _ (h.connected driver channel (hconnect driver channel hmem))
  case linked =>
    intro driver channel hmem hheld
    rcases h.linked driver channel (hconnect driver channel hmem) hheld with hd | hd
    · simp [hnone] at hd
    · exact Or.inr (List.mem_append_left _ hd)
  case order => exact driverFirst_append h.order (by simp) (by simp)

theorem Owned.connect {device : RpLidarDevice} (h : Owned device) {driver channel : ℕ}
    (hdriver : device.driver = some driver) (hchannel : device.channel = some channel) :
    Owned (device.call (.connect driver channel)) := by
  have hheld : channel ∈ device.channel.toList := by simp [hchannel]
  have hconnect : ∀ d c, .connect d c ∈ device.calls ++ [.connect driver channel] →
      .connect d c ∈ device.calls ∨ d = driver ∧ c = channel := by
    intro d c hmem
    simpa using hmem
  constructor
  case channels =>
    simp only [call, channelLog_append, channelEntry, List.append_nil]
    exact h.channels
  case drivers =>
    simp only [call, driverLog_append, driverEntry, List.append_nil]
    exact h.drivers
  case connected =>
    intro d c hmem
    simp only [call, channelLog_append, channelEntry, List.append_nil]
    rcases hconnect d c hmem with hold | ⟨-, rfl⟩
    · exact h.connected d c hold
    · exact h.channels.obtained_of_held hheld
  case linked =>
    intro d c hmem hc
    rcases hconnect d c hmem with hold | ⟨rfl, -⟩
    · rcases h.linked d c hold hc with hd | hd
      · exact Or.inl hd
      · exact Or.inr (List.mem_append_left _ hd)
    · exact Or.inl hdriver
  case order =>
    refine driverFirst_append h.order (by simp) ?_
    rintro d c heq hdeleted
    obtain ⟨rfl, rfl⟩ := SdkCall.connect.inj heq
    exact h.channels.not_released hheld (deleteChannel_released hdeleted)

/-- Deleting the held driver, which may leave a channel behind. -/
theorem Owned.deleteDriver {device : RpLidarDevice} (h : Owned device) {driver : ℕ}
    (hdriver : device.driver = some driver) :
    Owned { device.call (.deleteDriver driver) with driver := none } := by
  have hdrivers := h.drivers
  rw [hdriver] at hdrivers
  have hconnect : ∀ d c, .connect d c ∈ device.calls ++ [.deleteDriver driver] →
      .connect d c ∈ device.calls := by
    intro d c hmem
    simpa using hmem
  constructor
  case channels =>
    simp only [call, channelLog_append, channelEntry, List.append_nil]
    exact h.channels
  case drivers =>
    simp only [call, driverLog_append, driverEntry, Option.toList_none]
    exact hdrivers.release
  case connected =>
    intro d c hmem
    simp only [call, channelLog_append]
    exact List.mem_append_left _ (h.connected d c (hconnect d c hmem))
  case linked =>
    intro d c hmem hheld
    refine Or.inr ?_
    rcases h.linked d c (hconnect d c hmem) hheld with hd | hd
    · rw [hdriver] at hd
      obtain rfl := Option.some.inj hd
      simp [call]
    · exact List.mem_append_left _ hd
  case order => exact driverFirst_append h.order (by simp) (by simp)

/-- Deleting the held channel, once no driver is held. -/
theorem Owned.deleteChannel {device : RpLidarDevice} (h : Owned device) {channel : ℕ}
    (hchannel : device.channel = some channel) (hdriver : device.driver = none) :
    Owned { device.call (.deleteChannel channel) with channel := none } := by
  have hchannels := h.channels
  rw [hchannel] at hchannels
  have hconnect : ∀ d c, .connect d c ∈ device.calls ++ [.deleteChannel channel] →
      .connect d c ∈ device.calls := by
    intro d c hmem
    simpa using hmem
  constructor
  case channels =>
    simp only [call, channelLog_append, channelEntry, Option.toList_none]
    exact hchannels.release
  case drivers =>
    simp only [call, driverLog_append, driverEntry, List.append_nil]
    exact h.drivers
  case connected =>
    intro d c hmem
    simp only [call, channelLog_append]
    exact List.mem_append_left _ (h.connected d c (hconnect d c hmem))
  case linked => simp
  case order =>
    refine driverFirst_append h.order ?_ (by simp)
    intro c d heq hmem
    obtain rfl := SdkCall.deleteChannel.inj heq
    rcases h.linked d channel hmem hchannel with hd | hd
    · simp [hdriver] at hd
    · exact hd

theorem Owned.close {device : RpLidarDevice} (h : Owned device) : Owned device.close := by
  have hdriver : Owned device.closeDriver ∧ device.closeDriver.driver = none := by
    unfold closeDriver
    split
    next driver hd =>
      have hquiet := (h.call_quiet (c := .stop driver) rfl).call_quiet
        (c := .setMotorSpeed driver (some 0)) rfl
      exact ⟨hquiet.deleteDriver hd, rfl⟩
    next hd => exact ⟨h, hd⟩
  unfold RpLidarDevice.close closeChannel
  split
  next channel hc => exact hdriver.1.deleteChannel hc hdriver.2
  next => exact hdriver.1

theorem Owned.connectAndScan {device : RpLidarDevice} (h : Owned device) {driver channel : ℕ}
    (hdriver : device.driver = some driver) (hchannel : device.channel = some channel)
    (config : LidarConfig) (sdk : BringUp) :
    Owned (device.connectAndScan config driver channel sdk).1 := by
  have hconnected := h.connect hdriver hchannel
  have hinfo := hconnected.call_quiet (c := .getDeviceInfo driver) rfl
  have hmotor := hinfo.call_quiet (c := .setMotorSpeed driver none) rfl
  have hscan := hmotor.call_quiet (c := .startScan driver) rfl
  simp only [RpLidarDevice.connectAndScan]
  split_ifs
  · exact hmotor.close
  · exact hscan
  · exact hscan.close
  · exact hinfo.close
  · exact hconnected.close

theorem Owned.open {device : RpLidarDevice} (h : Owned device) (config : LidarConfig)
    (sdk : BringUp) : Owned (device.open config sdk).1 := by
  have hclosed := h.close
  simp only [RpLidarDevice.open]
  cases hchannel : sdk.createSerialPortChannel with
  | false =>
    exact hclosed.call_quiet (c := .createSerialPortChannel config.serialPort config.baudrate
      false) rfl
  | true =>
    have hheld := hclosed.createChannel (close_channel device) config.serialPort config.baudrate
    cases hdriver : sdk.createLidarDriver with
    | false => exact (hheld.call_quiet (c := .createLidarDriver false) rfl).close
    | true =>
      have hboth := hheld.createDriver (close_driver device)
      exact hboth.connectAndScan rfl rfl config sdk

theorem Owned.grabScan {device : RpLidarDevice} (h : Owned device) (config : LidarConfig)
    (points : List (ScanPoint ℚ)) (sdk : Revolution) :
    Owned (device.grabScan config points sdk).1 := by
  unfold RpLidarDevice.grabScan
  split
  next => exact h
  next driver hd =>
    have hgrab := h.call_quiet (c := .grabScanDataHq driver config.maxNodesPerScan
      config.scanTimeoutMs) rfl
    dsimp only
    split_ifs
    · exact hgrab.call_quiet (c := .ascendScanData driver) rfl
    · exact hgrab

/-! Any history of calls. -/

/-- One call of the public interface, with what the SDK answers to it. -/
inductive DeviceCall
  | open (sdk : BringUp)
  | close
  | grabScan (points : List (ScanPoint ℚ)) (sdk : Revolution)
  deriving DecidableEq, Repr

def perform (config : LidarConfig) (device : RpLidarDevice) : DeviceCall → RpLidarDevice
  | .open sdk => (device.open config sdk).1
  | .close => device.close
  | .grabScan points sdk => (device.grabScan config points sdk).1

def Whole (device : RpLidarDevice) : Prop := device.driver.isSome = device.channel.isSome

theorem close_whole (device : RpLidarDevice) : Whole device.close := by simp [Whole]

theorem perform_whole (config : LidarConfig) {device : RpLidarDevice} (h : Whole device)
    (c : DeviceCall) : Whole (device.perform config c) := by
  cases c with
  | «open» sdk =>
    simp only [perform, RpLidarDevice.open, RpLidarDevice.connectAndScan]
    split_ifs <;> simp [Whole, call]
  | close => exact close_whole device
  | grabScan points sdk =>
    simp only [perform, RpLidarDevice.grabScan]
    split
    · exact h
    · split_ifs <;> exact h

theorem perform_owned (config : LidarConfig) {device : RpLidarDevice} (h : Owned device)
    (c : DeviceCall) : Owned (device.perform config c) := by
  cases c with
  | «open» sdk => exact h.open config sdk
  | close => exact h.close
  | grabScan points sdk => exact h.grabScan config points sdk

def after (config : LidarConfig) (history : List DeviceCall) : RpLidarDevice :=
  history.foldl (perform config) {}

theorem after_append (config : LidarConfig) (history : List DeviceCall) (c : DeviceCall) :
    after config (history ++ [c]) = (after config history).perform config c := by
  rw [after, List.foldl_append]
  rfl

theorem after_sound (config : LidarConfig) (history : List DeviceCall) :
    Whole (after config history) ∧ Owned (after config history) := by
  induction history using List.reverseRecOn with
  | nil => exact ⟨rfl, new_owned⟩
  | append_singleton history c ih =>
    rw [after_append]
    exact ⟨perform_whole config ih.1 c, perform_owned config ih.2 c⟩

/-- After any history of calls and whatever the SDK answered: both handles are there or neither;
a bring-up reports success exactly if it leaves the device open; every channel and every driver
handed out so far was deleted exactly once, unless it is held, and nothing else was; a channel
was deleted after the drivers connected to it; and a grab that fails keeps the points. -/
theorem device_ownership (config : LidarConfig) (history : List DeviceCall) (c : DeviceCall) :
    let before := after config history
    let device := before.perform config c
    device.driver.isSome = device.channel.isSome ∧
    (∀ sdk, c = .open sdk →
      ((before.open config sdk).2 = .ok () ↔ device.isOpen = true)) ∧
    (∀ k, .obtained k ∈ channelLog device.calls →
      (channelLog device.calls).count (.released k) = if device.channel = some k then 0 else 1) ∧
    (∀ k, .obtained k ∈ driverLog device.calls →
      (driverLog device.calls).count (.released k) = if device.driver = some k then 0 else 1) ∧
    (∀ k, .released k ∈ channelLog device.calls → .obtained k ∈ channelLog device.calls) ∧
    (∀ k, .released k ∈ driverLog device.calls → .obtained k ∈ driverLog device.calls) ∧
    DriverFirst device.calls ∧
    (∀ points sdk message, c = .grabScan points sdk →
      (before.grabScan config points sdk).2.2 = .error message →
      (before.grabScan config points sdk).2.1 = points) := by
  intro before device
  have hsound : Whole device ∧ Owned device := by
    have hall := after_sound config (history ++ [c])
    rwa [after_append] at hall
  obtain ⟨hwhole, howned⟩ := hsound
  refine ⟨hwhole, ?_, fun k hk => ?_, fun k hk => ?_, fun k => howned.channels.obtained_of_released,
    fun k => howned.drivers.obtained_of_released, howned.order, ?_⟩
  · rintro sdk rfl
    exact (before.open_isOpen config sdk).symm
  · rw [howned.channels.released_count hk]
    simp
  · rw [howned.drivers.released_count hk]
    simp
  · intro points sdk message _ hfailed
    rcases before.grabScan_spec config points sdk with ⟨_, hgrab, -⟩ | ⟨hgrab, -⟩
    · rw [hgrab]
    · rw [hgrab] at hfailed
      cases hfailed

end RpLidarDevice

end AebNode
