import SoftwareAuthenticator.U2fApdu

/-!
# CTAPHID packets, commands and transaction data

64-byte reports, the commands they carry, the channel table, and the records kept for a
transaction, for a U2F prompt and for a refused prompt.
-/

namespace SoftwareAuthenticator.Ctaphid

def packetSize : ℕ := 64
def initData : ℕ := packetSize - 7
def contData : ℕ := packetSize - 5
def maxMessageSize : ℕ := initData + 128 * contData
def broadcastCid : UInt32 := 0xffffffff
def u2fResponseWaitMs : ℕ := 100
def u2fPollTimeoutMs : ℕ := 3000
def u2fApprovalMs : ℕ := 10000
def continuationTimeoutMs : ℕ := 550
def keepaliveIntervalMs : ℕ := 50
def identificationTimeoutMs : ℕ := 500
def maxChannels : ℕ := 256
def channelGenerationRetryLimit : ℕ := 64
def ctap2ErrKeepaliveCancel : UInt8 := 0x2D

structure Frame where
  bytes : Bytes
  size : bytes.length = packetSize
  deriving DecidableEq

namespace Frame

def pad (bytes : Bytes) : Frame where
  bytes := (bytes ++ List.replicate packetSize 0).take packetSize
  size := by simp

def byte (frame : Frame) (i : ℕ) : UInt8 := frame.bytes.getD i 0

def channel (frame : Frame) : UInt32 :=
  ofBeBytes32 (frame.byte 0) (frame.byte 1) (frame.byte 2) (frame.byte 3)

def addressedTo (frame : Frame) (channel : UInt32) : Bool :=
  frame.bytes.take 4 = beBytes32 channel

end Frame

inductive Command where
  | ping | msg | lock | init | wink | cbor | cancel | keepAlive | error
  deriving DecidableEq, Repr

def Command.intoU8 : Command → UInt8
  | .ping => 0x01
  | .msg => 0x03
  | .lock => 0x04
  | .init => 0x06
  | .wink => 0x08
  | .cbor => 0x10
  | .cancel => 0x11
  | .keepAlive => 0x3B
  | .error => 0x3F

def Command.tryFrom (code : UInt8) : Option Command :=
  if code = 0x01 then some .ping
  else if code = 0x03 then some .msg
  else if code = 0x04 then some .lock
  else if code = 0x06 then some .init
  else if code = 0x08 then some .wink
  else if code = 0x10 then some .cbor
  else if code = 0x11 then some .cancel
  else if code = 0x3B then some .keepAlive
  else if code = 0x3F then some .error
  else none

theorem Command.tryFrom_intoU8 (command : Command) :
    Command.tryFrom command.intoU8 = some command := by
  cases command <;> rfl

def Command.isRequest : Command → Bool
  | .ping | .cbor | .msg | .lock | .wink => true
  | _ => false

structure Version where
  major : UInt8
  minor : UInt8
  build : UInt8
  deriving DecidableEq

inductive ErrorCode where
  | invalidCommand | invalidParameter | invalidLength | invalidSeq
  | timeout | channelBusy | invalidChannel | other
  deriving DecidableEq, Repr

def ErrorCode.toU8 : ErrorCode → UInt8
  | .invalidCommand => 0x01
  | .invalidParameter => 0x02
  | .invalidLength => 0x03
  | .invalidSeq => 0x04
  | .timeout => 0x05
  | .channelBusy => 0x06
  | .invalidChannel => 0x0B
  | .other => 0x7F

inductive KeepaliveStatus where
  | processing | upNeeded
  deriving DecidableEq, Repr

def KeepaliveStatus.toU8 : KeepaliveStatus → UInt8
  | .processing => 1
  | .upNeeded => 2

class CryptoRng (R : Type) where
  nextU32 : R → UInt32 × R

structure Draws where
  numbers : List UInt32
  deriving DecidableEq

instance : CryptoRng Draws where
  nextU32
    | ⟨[]⟩ => (0, ⟨[]⟩)
    | ⟨number :: numbers⟩ => (number, ⟨numbers⟩)

/-- The channels allocated by CTAPHID_INIT, least recently used first. -/
structure Channels where
  ids : List UInt32 := []
  deriving DecidableEq

namespace Channels

def contains (channels : Channels) (id : UInt32) : Bool := channels.ids.contains id

def touch (channels : Channels) (id : UInt32) : Channels :=
  if channels.contains id then ⟨channels.ids.erase id ++ [id]⟩ else channels

/-- Allocate `id`, forgetting the least recently used channel if the table is full. -/
def insert (channels : Channels) (id : UInt32) : Option Channels :=
  if channels.contains id then none
  else if channels.ids.length = maxChannels then some ⟨channels.ids.tail ++ [id]⟩
  else some ⟨channels.ids ++ [id]⟩

end Channels

structure AppRequest where
  command : Command
  payload : Bytes
  deriving DecidableEq

structure Taken where
  channel : UInt32
  request : AppRequest
  deriving DecidableEq

structure AppAnswer where
  serial : ℕ
  response : Bytes
  deriving DecidableEq

structure Delivery where
  channel : UInt32
  command : Command
  answer : AppAnswer
  deriving DecidableEq

structure U2fPoll where
  channel : UInt32
  request : Bytes
  lastPoll : ℕ
  started : ℕ
  presenceStarted : Bool
  presenceFinished : Option ℕ
  answer : Option (AppAnswer × ℕ)
  deriving DecidableEq

def U2fPoll.deadline (poll : U2fPoll) : ℕ :=
  match poll.answer with
  | some (_, expires) => saturatingAdd expires 1
  | none =>
    match poll.presenceFinished with
    | none => saturatingAdd poll.lastPoll (u2fPollTimeoutMs + 1)
    | some at_ => saturatingAdd at_ (u2fApprovalMs + 1)

structure DeniedPoll where
  channel : UInt32
  request : Bytes
  lastPoll : ℕ
  deriving DecidableEq

/-- A complete CBOR or MSG request. `request` is the payload until it is handed
to the application. -/
structure Processing where
  channel : UInt32
  command : Command
  started : ℕ
  request : Option Bytes
  keepaliveAt : ℕ
  keepaliveStatus : KeepaliveStatus
  deriving DecidableEq

structure IdentificationRequest where
  token : ℕ
  deadline : ℕ
  deriving DecidableEq

inductive State where
  | idle
  | receiving (channel : UInt32) (command : Command) (length : ℕ) (nextSequence : UInt8)
      (lastPacketAt : ℕ)
  | processing (processing : Processing)
  | identifying (channel : UInt32) (request : IdentificationRequest) (submitted : Bool)
  | transmitting (channel : UInt32) (finalFrame : ℕ)
  deriving DecidableEq

structure OutgoingFrame where
  frame : Frame
  token : ℕ
  deriving DecidableEq

end SoftwareAuthenticator.Ctaphid
