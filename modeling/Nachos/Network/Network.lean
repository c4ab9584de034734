import Nachos.Lib.Block
import Nachos.Lib.Transition
import Nachos.Utility

/-!
# The network interface

A packet is a header of three words and its data, padded to the size of the
wire.  The device holds one incoming packet.  Sending schedules an interrupt
which reports that the next packet can be sent; `sendBusy` should be set in
between, but only `SendDone` writes it.
-/

open Words Memory Transition

namespace Nachos

def maxWireSize : Nat := 64

def packetHeaderSize : Nat := 12

def maxPacketSize : Nat := maxWireSize - packetHeaderSize

/-- The bytes of a header of three words. -/
def headerBytes (first second third : Word) : List Byte :=
  slice (wordsToBytes fun index =>
    if index = 0 then first else if index = 1 then second else third) 0 12

structure PacketHeader where
  toAddr : Word
  fromAddr : Word
  length : Word
  deriving DecidableEq

namespace PacketHeader

def bytes (header : PacketHeader) : List Byte :=
  headerBytes header.toAddr header.fromAddr header.length

/-- `*(PacketHeader *)buffer`. -/
def read (buffer : Nat → Byte) : PacketHeader :=
  ⟨wordAt buffer 0, wordAt buffer 4, wordAt buffer 8⟩

end PacketHeader

/-- The device; `inbox` is meaningful while `inHdr.length` is not zero. -/
structure Network where
  ident : Word
  sendBusy : Bool
  inHdr : PacketHeader
  inbox : Nat → Byte

namespace Network

/-- `Network::Network`, with what is in the memory of the object. -/
def new (addr : Word) (fresh : Network) : Network where
  ident := addr
  sendBusy := false
  inHdr := { fresh.inHdr with length := 0#32 }
  inbox := fresh.inbox

/-- `Network::Send`: the packet for the socket, in a buffer with arbitrary
contents.  The device itself stays as it is. -/
def send (network : Network) (hdr : PacketHeader) (data buffer : Nat → Byte) : Result (List Byte) :=
  if network.sendBusy = false ∧ 0 < hdr.length.toNat ∧
      hdr.length.toNat ≤ maxPacketSize ∧ hdr.fromAddr = network.ident then
    let buffer := splice buffer 0 hdr.bytes
    let buffer := splice buffer packetHeaderSize (slice data 0 hdr.length.toNat)
    .ok (slice buffer 0 maxWireSize)
  else .error .assertion

/-- `Network::SendDone` without the call of the handler. -/
def sendDone (network : Network) : Network :=
  { network with sendBusy := false }

/-- `Network::CheckPktAvail` for a packet which has been read from the
socket. -/
def accept (network : Network) (packet : List Byte) : Result Network :=
  let buffer := fun offset => packet.getD offset 0#8
  let inHdr := PacketHeader.read buffer
  if inHdr.toAddr = network.ident ∧ inHdr.length.toNat ≤ maxPacketSize then
    .ok { network with
      inHdr := inHdr
      inbox := splice network.inbox 0 (slice buffer packetHeaderSize inHdr.length.toNat) }
  else .error .assertion

/-- `Network::Receive`. -/
def receive (network : Network) (data : Nat → Byte) : PacketHeader × (Nat → Byte) × Network :=
  let hdr := network.inHdr
  (hdr, if hdr.length = 0#32 then data
    else splice data 0 (slice network.inbox 0 hdr.length.toNat),
    { network with inHdr := { hdr with length := 0#32 } })

end Network

/-! ## Packets -/

theorem headerBytes_length (first second third : Word) :
    (headerBytes first second third).length = 12 := slice_length _ _ _

theorem wordAt_headerBytes {first second third : Word} {image : Nat → Byte}
    (written : ∀ offset, offset < 12 →
      image offset = (headerBytes first second third).getD offset 0#8) :
    wordAt image 0 = first ∧ wordAt image 4 = second ∧ wordAt image 8 = third := by
  have read : ∀ index, index < 3 → wordAt image (4 * index) =
      if index = 0 then first else if index = 1 then second else third := by
    intro index inside
    apply wordAt_wordsToBytes
    intro offset lower upper
    have position : offset < 12 := by omega
    rw [written offset position, headerBytes, slice_getD _ position, Nat.zero_add]
  exact ⟨read 0 (by decide), read 1 (by decide), read 2 (by decide)⟩

theorem PacketHeader.read_eq {header : PacketHeader} {image : Nat → Byte}
    (written : ∀ offset, offset < 12 → image offset = header.bytes.getD offset 0#8) :
    read image = header := by
  obtain ⟨toAddr, fromAddr, length⟩ := header
  obtain ⟨first, second, third⟩ := wordAt_headerBytes written
  simp only [read, first, second, third]

namespace Network

theorem splice_header (buffer data : Nat → Byte) (first second third : Word) (count : Nat) :
    let filled := splice (splice buffer 0 (headerBytes first second third)) 12 (slice data 0 count)
    (∀ offset, offset < 12 → filled offset =
      (headerBytes first second third).getD offset 0#8) ∧
    ∀ index, index < count → filled (12 + index) = data index := by
  refine ⟨?_, ?_⟩
  · intro offset inside
    rw [splice_outside _ (.inl inside), splice_inside _ (Nat.zero_le _)
      (by rw [headerBytes_length, Nat.zero_add]; exact inside),
      Nat.sub_zero]
  · intro index inside
    rw [splice_slice, if_pos (by omega), Nat.add_sub_cancel_left, Nat.zero_add]

/-- A packet which has been sent consists of its header and its data. -/
theorem send_inv {network : Network} {hdr : PacketHeader}
    {data buffer : Nat → Byte} {packet : List Byte}
    (success : network.send hdr data buffer = .ok packet) :
    hdr.length.toNat ≤ maxPacketSize ∧
    PacketHeader.read (fun offset => packet.getD offset 0#8) = hdr ∧
    ∀ index, index < hdr.length.toNat →
      packet.getD (packetHeaderSize + index) 0#8 = data index := by
  unfold send at success
  split at success
  · rename_i checked
    have short : hdr.length.toNat ≤ 52 := checked.2.2.1
    cases success
    obtain ⟨header, payload⟩ := splice_header buffer data hdr.toAddr
      hdr.fromAddr hdr.length hdr.length.toNat
    refine ⟨short, PacketHeader.read_eq ?_, ?_⟩
    · intro offset inside
      have position : offset < maxWireSize := inside.trans (by decide)
      rw [slice_getD _ position, Nat.zero_add]
      exact header offset inside
    · intro index inside
      have position : packetHeaderSize + index < maxWireSize := by
        rw [show packetHeaderSize = 12 from rfl, show maxWireSize = 64 from rfl]
        omega
      rw [slice_getD _ position, Nat.zero_add]
      exact payload index inside
  · cases success

theorem accept_eq {network : Network} {packet : List Byte} {hdr : PacketHeader}
    (header : PacketHeader.read (fun offset => packet.getD offset 0#8) = hdr)
    (own : hdr.toAddr = network.ident)
    (short : hdr.length.toNat ≤ maxPacketSize) :
    ∃ inbox, network.accept packet =
        .ok { network with inHdr := hdr, inbox := inbox } ∧
      ∀ index, index < hdr.length.toNat →
        inbox index = packet.getD (packetHeaderSize + index) 0#8 := by
  unfold accept
  simp only [header, own, short, and_self, if_true]
  refine ⟨_, rfl, ?_⟩
  intro index inside
  rw [splice_slice, if_pos (by omega), Nat.sub_zero]

theorem receive_data (network : Network) (data : Nat → Byte)
    (index : Nat) (inside : index < network.inHdr.length.toNat) :
    (network.receive data).2.1 index = network.inbox index := by
  have nonzero : network.inHdr.length ≠ 0#32 := by
    intro zero
    rw [zero] at inside
    exact absurd inside (Nat.not_lt_zero _)
  unfold receive
  simp only [if_neg nonzero]
  rw [splice_slice, if_pos (by omega), Nat.sub_zero, Nat.zero_add]

end Network

/-! ## The busy flag -/

/-- A device with its pending `NetworkSendDone` interrupts. -/
structure NetworkOutput where
  network : Network
  pending : Nat

/-- Some thread sends a packet, or the device reports that one is sent. -/
inductive SendEvent where
  | send (hdr : PacketHeader) (data buffer : Nat → Byte)
  | sendDone

namespace NetworkOutput

def boot (addr : Word) (fresh : Network) : NetworkOutput :=
  ⟨Network.new addr fresh, 0⟩

def next (state : NetworkOutput) : SendEvent → Option NetworkOutput
  | .send hdr data buffer =>
    match state.network.send hdr data buffer with
    | .ok _ => some { state with pending := state.pending + 1 }
    | .error _ => none
  | .sendDone =>
    if state.pending = 0 then none
    else some ⟨state.network.sendDone, state.pending - 1⟩

abbrev Step (before : NetworkOutput) (event : SendEvent) (after : NetworkOutput) : Prop :=
  before.next event = some after

/-- The flag says that an interrupt is pending, and there is at most one. -/
def Tracked (state : NetworkOutput) : Prop :=
  (state.network.sendBusy = true ↔ state.pending ≠ 0) ∧ state.pending ≤ 1

def SendEvent.IsSend : SendEvent → Prop
  | .send _ _ _ => True
  | .sendDone => False

theorem not_busy {addr : Word} {fresh : Network} {events : List SendEvent}
    {state : NetworkOutput} (run : Run Step (boot addr fresh) events state) :
    state.network.sendBusy = false := by
  refine run.history (fun _ state => state.network.sendBusy = false) rfl ?_
  intro past before event after idle taken
  cases event with
  | send hdr data buffer =>
    simp only [Step, next] at taken
    split at taken
    · cases taken
      exact idle
    · cases taken
  | sendDone =>
    simp only [Step, next] at taken
    split at taken
    · cases taken
    · cases taken
      rfl

theorem pending_of_send {before after : NetworkOutput} {event : SendEvent}
    (taken : Step before event after) (isSend : SendEvent.IsSend event) :
    after.pending ≠ 0 := by
  cases event with
  | send hdr data buffer =>
    simp only [Step, next] at taken
    split at taken
    · cases taken
      exact Nat.succ_ne_zero _
    · cases taken
  | sendDone => exact isSend.elim

theorem pending_of_no_send {addr : Word} {fresh : Network}
    {events : List SendEvent} {state : NetworkOutput}
    (run : Run Step (boot addr fresh) events state)
    (quiet : ∀ event ∈ events, ¬SendEvent.IsSend event) :
    state.pending = 0 := by
  refine run.invariant (fun state => state.pending = 0) quiet rfl ?_
  intro before event after none quiet taken
  cases event with
  | send hdr data buffer => exact absurd trivial quiet
  | sendDone =>
    simp only [Step, next, if_pos none] at taken
    cases taken

/-- The flag tracks the interrupt in all states of a run if and only if
nothing is sent in it. -/
theorem send_tracked_iff (addr : Word) (fresh : Network)
    (events : List SendEvent) (final : NetworkOutput)
    (run : Run Step (boot addr fresh) events final) :
    (∀ past later state, events = past ++ later →
      Run Step (boot addr fresh) past state → Run Step state later final →
      state.Tracked) ↔
    ∀ event ∈ events, ¬SendEvent.IsSend event := by
  constructor
  · intro tracked event member isSend
    obtain ⟨past, later, rfl⟩ := List.append_of_mem member
    rw [List.append_cons] at run
    obtain ⟨state, before, after⟩ := run.split
    obtain ⟨middle, -, taken⟩ := before.snoc_inv
    have holds := tracked (past ++ [event]) later state
      (List.append_cons past event later) before after
    have waiting := holds.1.mpr (pending_of_send taken isSend)
    rw [not_busy before] at waiting
    cases waiting
  · rintro quiet past later state rfl before -
    have none := pending_of_no_send before fun event member =>
      quiet event (List.mem_append_left _ member)
    refine ⟨?_, by omega⟩
    rw [not_busy before, none]
    simp

/-- Machine 1 sends four bytes to machine 2. -/
def fourBytes : SendEvent :=
  .send ⟨2#32, 1#32, 4#32⟩ (fun _ => 0#8) (fun _ => 0#8)

def blank : Network := ⟨0#32, false, ⟨0#32, 0#32, 0#32⟩, fun _ => 0#8⟩

theorem send_tracked_iff_four_bytes :
    ∃ final, Run Step (boot 1#32 blank) [fourBytes] final ∧
      ¬∀ past later state, [fourBytes] = past ++ later →
        Run Step (boot 1#32 blank) past state →
        Run Step state later final → state.Tracked := by
  have run : Run Step (boot 1#32 blank) [fourBytes] _ := run_of_replay rfl
  refine ⟨_, run, (send_tracked_iff 1#32 blank _ _ run).not.mpr ?_⟩
  intro quiet
  exact quiet fourBytes List.mem_cons_self trivial

/-- A second packet is accepted while the first is being sent. -/
theorem second_send_not_rejected :
    ∃ state, Run Step (boot 1#32 blank) [fourBytes, fourBytes] state ∧
      state.network.sendBusy = false ∧ state.pending = 2 :=
  ⟨_, run_of_replay rfl, rfl, rfl⟩

end NetworkOutput

end Nachos
