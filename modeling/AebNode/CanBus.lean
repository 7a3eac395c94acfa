import AebNode.Application
import AebNode.CommandLine

/-! The CAN socket: opened in four calls to the kernel, each of which may fail, used by the
callback and closed by the main thread. What the kernel answers is an argument. -/
namespace AebNode
open Application CommandLine

/-- What the kernel answers in the course of one `open`, as far as it is asked: a descriptor or
the text of `errno`. -/
structure CanBringUp where
  socket : Except String ℕ
  ioctl : Except String Unit
  bind : Except String Unit

/-- The handle, with the sockets the kernel holds open on its behalf and the frames it wrote. -/
structure CanBus where
  fd : Option ℕ := none
  lastError : String := ""
  sockets : List ℕ := []
  frames : List CanMessage := []
  deriving DecidableEq, Repr

namespace CanBus

def IFNAMSIZ : ℕ := 16
def kCanMaxDlc : UInt8 := 8

def describeErrno (context strerror : String) : String := context ++ ": " ++ strerror

def close (bus : CanBus) : CanBus :=
  match bus.fd with
  | some fd => { bus with fd := none, sockets := bus.sockets.erase fd }
  | none => bus

/-- An early return of `open`: the message is recorded and the socket closed again. -/
def refuse (bus : CanBus) (message : String) : CanBus × Bool :=
  ({ bus with lastError := message }.close, false)

def isOpen (bus : CanBus) : Bool := bus.fd.isSome

/-- The data bytes beyond the length stay zero. -/
def canFrame (msg : CanMessage) : CanMessage :=
  let bytes := (if msg.dlc ≤ kCanMaxDlc then msg.dlc else kCanMaxDlc).toNat
  { msg with data := .ofFn fun i => if i.val < bytes then msg.data[i] else 0 }

def send (bus : CanBus) (msg : CanMessage) (accepts : Bool) : CanBus × Bool :=
  match bus.fd with
  | some _ => (if accepts then { bus with frames := bus.frames ++ [canFrame msg] } else bus, accepts)
  | none => (bus, false)

end CanBus

def CanBus.open (config : CanBusConfig) (bus : CanBus) (kernel : CanBringUp) : CanBus × Bool :=
  if bus.fd.isSome then ({ bus with lastError := "already open" }, false)
  else match kernel.socket with
    | .error strerror =>
      ({ bus with lastError := CanBus.describeErrno "socket(PF_CAN)" strerror }, false)
    | .ok fd =>
      let bus := { bus with fd := some fd, sockets := fd :: bus.sockets }
      if CanBus.IFNAMSIZ ≤ config.interface.utf8ByteSize then
        bus.refuse ("interface name too long: " ++ config.interface)
      else match kernel.ioctl with
        | .error strerror => bus.refuse
          (CanBus.describeErrno ("ioctl(SIOCGIFINDEX) on " ++ config.interface) strerror)
        | .ok () => match kernel.bind with
          | .error strerror =>
            bus.refuse (CanBus.describeErrno ("bind on " ++ config.interface) strerror)
          | .ok () => ({ bus with lastError := "" }, true)

namespace CanBus

def Owned (bus : CanBus) : Prop := bus.sockets = bus.fd.toList

theorem close_spec {bus : CanBus} (h : bus.Owned) :
    bus.close.Owned ∧ bus.close.isOpen = false := by
  rw [Owned] at h
  cases hfd : bus.fd with
  | some fd => simp [close, Owned, isOpen, hfd, h]
  | none => simp [close, Owned, isOpen, hfd, h]

/-- A bring-up of a closed bus leaves a socket behind exactly if it reports success. -/
theorem open_spec (config : CanBusConfig) (kernel : CanBringUp) {bus : CanBus} (h : bus.Owned)
    (hclosed : bus.isOpen = false) :
    (bus.open config kernel).1.Owned ∧
      (bus.open config kernel).1.isOpen = (bus.open config kernel).2 := by
  have hfd : bus.fd = none := by simpa [isOpen] using hclosed
  have hsockets : bus.sockets = [] := by simpa [Owned, hfd] using h
  simp only [CanBus.open, hfd, Option.isSome_none, Bool.false_eq_true, if_false]
  cases kernel.socket with
  | error strerror => simp [Owned, isOpen, hsockets]
  | ok fd =>
    have hrefuse : ∀ message, Owned ({ bus with
          fd := some fd, sockets := fd :: bus.sockets }.refuse message).1 ∧
        isOpen ({ bus with
          fd := some fd, sockets := fd :: bus.sockets }.refuse message).1 = false :=
      fun message => close_spec (by simp [Owned, hsockets])
    dsimp only
    split_ifs
    · exact hrefuse _
    · cases kernel.ioctl with
      | error strerror => exact hrefuse _
      | ok _ =>
        cases kernel.bind with
        | error strerror => exact hrefuse _
        | ok _ => simp [Owned, isOpen, hsockets]

theorem send_spec (bus : CanBus) (msg : CanMessage) (accepts : Bool) :
    (bus.send msg accepts).1.fd = bus.fd ∧ (bus.send msg accepts).1.sockets = bus.sockets := by
  cases hfd : bus.fd <;> cases accepts <;> simp [send, hfd]

end CanBus

end AebNode
