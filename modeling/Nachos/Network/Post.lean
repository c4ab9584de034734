import Nachos.Network.Network
import Nachos.Lib.Semaphore

/-!
# The post office

`PostOffice::Send` puts a second header in front of a message and sends both
as the data of a packet.  On the receiving machine a poll moves a packet from
the socket into the one-packet buffer of the device and wakes the postal
worker, a thread which takes the packet apart and queues the message in its
mailbox.  The socket keeps the order of the packets but may lose some.
-/

open Words Memory Semaphores Transition Function

namespace Nachos

def mailHeaderSize : Nat := 12

def maxMailSize : Nat := maxPacketSize - mailHeaderSize

structure MailHeader where
  toBox : Word
  fromBox : Word
  length : Word
  deriving DecidableEq

namespace MailHeader

def bytes (header : MailHeader) : List Byte :=
  headerBytes header.toBox header.fromBox header.length

/-- `*(MailHeader *)buffer`. -/
def read (buffer : Nat → Byte) : MailHeader :=
  ⟨wordAt buffer 0, wordAt buffer 4, wordAt buffer 8⟩

/-- The two checks which both ends of the connection make. -/
def Legal (header : MailHeader) (numBoxes : Nat) : Prop :=
  header.length.toNat ≤ maxMailSize ∧ 0 ≤ header.toBox.toInt ∧ header.toBox.toInt < numBoxes

instance (header : MailHeader) (numBoxes : Nat) : Decidable (header.Legal numBoxes) :=
  inferInstanceAs (Decidable (_ ∧ _))

def box (header : MailHeader) : Nat := header.toBox.toInt.toNat

theorem read_eq {header : MailHeader} {image : Nat → Byte}
    (written : ∀ offset, offset < 12 → image offset = header.bytes.getD offset 0#8) :
    read image = header := by
  obtain ⟨toBox, fromBox, length⟩ := header
  obtain ⟨first, second, third⟩ := wordAt_headerBytes written
  simp only [read, first, second, third]

theorem read_congr {left right : Nat → Byte}
    (agree : ∀ offset, offset < 12 → left offset = right offset) :
    read left = read right := by
  have words : ∀ offset, offset + 3 < 12 → wordAt left offset = wordAt right offset := by
    intro offset inside
    simp only [wordAt]
    rw [agree offset (by omega), agree (offset + 1) (by omega),
      agree (offset + 2) (by omega), agree (offset + 3) (by omega)]
  simp only [read, words 0 (by decide), words 4 (by decide), words 8 (by decide)]

end MailHeader

/-- A message as it is queued, with the first `mailHdr.length` bytes of its
data. -/
structure Mail where
  pktHdr : PacketHeader
  mailHdr : MailHeader
  data : List Byte
  deriving DecidableEq

/-- `Mail::Mail`. -/
def Mail.new (pktHdr : PacketHeader) (mailHdr : MailHeader) (msgData : Nat → Byte) : Result Mail :=
  if mailHdr.length.toNat ≤ maxMailSize then
    .ok ⟨pktHdr, mailHdr, slice msgData 0 mailHdr.length.toNat⟩
  else .error .assertion

namespace PostOffice

/-- `PostOffice::Send` up to the call of `Network::Send`, with the header and
the data it passes on, in a buffer with arbitrary contents. -/
def send (netAddr : Word) (numBoxes : Nat) (pktHdr : PacketHeader)
    (mailHdr : MailHeader) (data buffer : Nat → Byte) :
    Result (PacketHeader × (Nat → Byte)) :=
  if mailHdr.Legal numBoxes then
    let pktHdr := { pktHdr with
      fromAddr := netAddr
      length := mailHdr.length + BitVec.ofNat 32 mailHeaderSize }
    let buffer := splice buffer 0 mailHdr.bytes
    let buffer := splice buffer mailHeaderSize (slice data 0 mailHdr.length.toNat)
    .ok (pktHdr, buffer)
  else .error .assertion

end PostOffice

/-- A message which has been sent: by which machine, and what. -/
structure Letter where
  fromAddr : Word
  mailHdr : MailHeader
  data : List Byte
  deriving DecidableEq

namespace Letter

/-- The header of its packet on the way to the machine `ident`. -/
def pktHdr (letter : Letter) (ident : Word) : PacketHeader :=
  ⟨ident, letter.fromAddr, letter.mailHdr.length + BitVec.ofNat 32 mailHeaderSize⟩

/-- The message as it should be queued by the machine `ident`. -/
def mail (letter : Letter) (ident : Word) : Mail :=
  ⟨letter.pktHdr ident, letter.mailHdr, letter.data⟩

/-- The image starts with the header and the data. -/
structure Fills (letter : Letter) (image : Nat → Byte) : Prop where
  header : MailHeader.read image = letter.mailHdr
  data : slice image mailHeaderSize letter.mailHdr.length.toNat = letter.data

end Letter

/-- Where the postal worker is in `PostalDelivery`. -/
inductive PostPoint where
  | awaiting
  | receiving
  | putting (pktHdr : PacketHeader) (mailHdr : MailHeader)
  deriving DecidableEq

/-- The receiving machine; all machines have `numBoxes` boxes.  The socket
holds the packets on their way with the messages they are for; `sent` and
`delivered` record the messages which have been sent to the machine and which
have been read from the socket, and `fetched` what has been taken out of the
boxes. -/
structure Post where
  numBoxes : Nat
  network : Network
  messageAvailable : Semaphore Unit
  worker : PostPoint
  buffer : Nat → Byte
  boxes : Nat → List Mail
  socket : List (List Byte × Letter)
  sent : List Letter
  delivered : List Letter
  fetched : Nat → List Mail

/-- A machine sends a message, the socket loses a packet, the device polls
the socket, the worker takes a step, or a thread takes a message out of a
box. -/
inductive PostEvent where
  | send (sender : Network) (pktHdr : PacketHeader) (mailHdr : MailHeader)
      (data mailBuffer buffer : Nat → Byte)
  | lose (index : Nat)
  | poll (readable : Bool)
  | work
  | receive (box : Nat)

namespace Post

def boot (ident : Word) (numBoxes : Nat) (fresh : Network) (buffer : Nat → Byte) : Post where
  numBoxes := numBoxes
  network := Network.new ident fresh
  messageAvailable := Semaphore.new 0
  worker := .awaiting
  buffer := buffer
  boxes := fun _ => []
  socket := []
  sent := []
  delivered := []
  fetched := fun _ => []

/-- `PostOffice::Send` on the machine `sender`, with the packet for the
socket of this machine. -/
def send (state : Post) (sender : Network) (pktHdr : PacketHeader)
    (mailHdr : MailHeader) (data mailBuffer buffer : Nat → Byte) :
    Result Post := do
  let (hdr, payload) ← PostOffice.send sender.ident state.numBoxes pktHdr mailHdr data mailBuffer
  let packet ← sender.send hdr payload buffer
  let letter : Letter :=
    ⟨sender.ident, mailHdr, slice data 0 mailHdr.length.toNat⟩
  return { state with
    socket := state.socket ++ [(packet, letter)]
    sent := state.sent ++ [letter] }

/-- `Network::CheckPktAvail`, which calls `PostOffice::IncomingPacket`. -/
def poll (state : Post) (readable : Bool) : Result Post :=
  if state.network.inHdr.length ≠ 0#32 then .ok state
  else
    match readable, state.socket with
    | true, (packet, letter) :: rest => do
      let network ← state.network.accept packet
      return { state with
        network := network
        socket := rest
        delivered := state.delivered ++ [letter]
        messageAvailable := state.messageAvailable.release }
    | _, _ => .ok state

/-- `boxes[mailHdr.to].Put(..)`; `SynchList::Append` puts it at the end. -/
def put (state : Post) (pktHdr : PacketHeader) (mailHdr : MailHeader) :
    Result Post := do
  let mail ← Mail.new pktHdr mailHdr fun offset => state.buffer (mailHeaderSize + offset)
  return { state with
    boxes := update state.boxes mailHdr.box (state.boxes mailHdr.box ++ [mail])
    worker := .awaiting }

/-- The next step of `PostOffice::PostalDelivery`. -/
def work (state : Post) : Result Post :=
  match state.worker with
  | .awaiting =>
    match state.messageAvailable.take with
    | some taken =>
      .ok { state with
        messageAvailable := taken
        worker := .receiving }
    | none =>
      .ok { state with
        messageAvailable := state.messageAvailable.sleep () }
  | .receiving =>
    let (pktHdr, buffer, network) := state.network.receive state.buffer
    let mailHdr := MailHeader.read buffer
    if mailHdr.Legal state.numBoxes then
      .ok { state with
        network := network
        buffer := buffer
        worker := .putting pktHdr mailHdr }
    else .error .assertion
  | .putting pktHdr mailHdr => state.put pktHdr mailHdr

/-- `PostOffice::Receive`.  In an empty box `SynchList::Remove` comes to
`Condition::Wait`, which only stops the machine. -/
def receive (state : Post) (box : Nat) : Result Post :=
  if box < state.numBoxes then
    match state.boxes box with
    | [] => .error .assertion
    | mail :: rest =>
      if mail.mailHdr.length.toNat ≤ maxMailSize then
        .ok { state with
          boxes := update state.boxes box rest
          fetched := update state.fetched box (state.fetched box ++ [mail]) }
      else .error .assertion
  else .error .assertion

/-- One event; there is none if it is not possible or an `ASSERT` fails. -/
def next (state : Post) : PostEvent → Option Post
  | .send sender pktHdr mailHdr data mailBuffer buffer =>
    if pktHdr.toAddr = state.network.ident then
      (state.send sender pktHdr mailHdr data mailBuffer buffer).toOption
    else none
  | .lose index => some { state with socket := state.socket.eraseIdx index }
  | .poll readable => (state.poll readable).toOption
  | .work =>
    if () ∈ state.messageAvailable.queue then none
    else state.work.toOption
  | .receive box => (state.receive box).toOption

abbrev Step (before : Post) (event : PostEvent) (after : Post) : Prop :=
  before.next event = some after

end Post

/-! ## A message in its packet -/

theorem toNat_packet_length {length : Word} (short : length.toNat ≤ maxMailSize) :
    (length + BitVec.ofNat 32 mailHeaderSize).toNat = mailHeaderSize + length.toNat := by
  have bound : length.toNat ≤ 40 := short
  have size : (BitVec.ofNat 32 mailHeaderSize).toNat = 12 := rfl
  rw [BitVec.toNat_add, size, show mailHeaderSize = 12 from rfl]
  omega

namespace Letter

theorem Fills.congr {letter : Letter} {left right : Nat → Byte} (fills : letter.Fills left)
    (agree : ∀ offset,
      offset < mailHeaderSize + letter.mailHdr.length.toNat →
      right offset = left offset) : letter.Fills right where
  header := by
    rw [← fills.header]
    apply MailHeader.read_congr
    intro offset inside
    exact agree offset (Nat.lt_add_right _ inside)
  data := by
    rw [← fills.data]
    apply slice_congr
    intro offset _ inside
    exact agree offset inside

theorem fills_splice (sender : Word) (mailHdr : MailHeader) (data buffer : Nat → Byte) :
    (Letter.mk sender mailHdr (slice data 0 mailHdr.length.toNat)).Fills
      (splice (splice buffer 0 mailHdr.bytes) mailHeaderSize
        (slice data 0 mailHdr.length.toNat)) := by
  obtain ⟨header, payload⟩ := Network.splice_header buffer data
    mailHdr.toBox mailHdr.fromBox mailHdr.length mailHdr.length.toNat
  refine ⟨MailHeader.read_eq header, ?_⟩
  apply List.ext_getElem?
  intro index
  rw [slice_getElem?, slice_getElem?]
  split
  · rename_i inside
    exact congrArg some ((payload index inside).trans (by rw [Nat.zero_add]))
  · rfl

/-- The packet carries the letter to the machine `ident`. -/
structure CarriedBy (letter : Letter) (ident : Word) (numBoxes : Nat)
    (packet : List Byte) : Prop where
  legal : letter.mailHdr.Legal numBoxes
  header : PacketHeader.read (fun offset => packet.getD offset 0#8) = letter.pktHdr ident
  fills : letter.Fills fun offset => packet.getD (packetHeaderSize + offset) 0#8

end Letter

variable {numBoxes : Nat}

/-- `PostOffice::Send` succeeds exactly for a legal header, and what it
passes on carries the message. -/
theorem PostOffice.send_inv {netAddr : Word} {pktHdr hdr : PacketHeader}
    {mailHdr : MailHeader} {data buffer payload : Nat → Byte}
    (success : PostOffice.send netAddr numBoxes pktHdr mailHdr data buffer = .ok (hdr, payload)) :
    let letter : Letter :=
      ⟨netAddr, mailHdr, slice data 0 mailHdr.length.toNat⟩
    mailHdr.Legal numBoxes ∧ hdr = letter.pktHdr pktHdr.toAddr ∧
      letter.Fills payload := by
  unfold send at success
  split at success
  · rename_i legal
    cases success
    exact ⟨legal, rfl, Letter.fills_splice netAddr mailHdr data buffer⟩
  · cases success

variable {letter : Letter}

theorem Letter.carriedBy_of_send {sender : Network} {ident : Word}
    {payload buffer : Nat → Byte} {packet : List Byte}
    (legal : letter.mailHdr.Legal numBoxes) (fills : letter.Fills payload)
    (success : sender.send (letter.pktHdr ident) payload buffer = .ok packet) :
    letter.CarriedBy ident numBoxes packet := by
  obtain ⟨-, header, data⟩ := Network.send_inv success
  refine ⟨legal, header, fills.congr ?_⟩
  intro offset inside
  apply data offset
  rw [Letter.pktHdr, toNat_packet_length legal.1]
  exact inside

/-! ## One message through the receiving machine -/

/-- What is in the buffer of the device. -/
inductive Buffered (numBoxes : Nat) (network : Network) :
    List Letter → Prop where
  | empty : network.inHdr.length = 0#32 → Buffered numBoxes network []
  | full {letter : Letter} :
      letter.mailHdr.Legal numBoxes →
      network.inHdr = letter.pktHdr network.ident →
      letter.Fills network.inbox →
      Buffered numBoxes network [letter]

/-- What the worker has in hand. -/
inductive InHand (numBoxes : Nat) (ident : Word) (buffer : Nat → Byte) :
    PostPoint → List Letter → Prop where
  | awaiting : InHand numBoxes ident buffer .awaiting []
  | receiving : InHand numBoxes ident buffer .receiving []
  | putting {letter : Letter} :
      letter.mailHdr.Legal numBoxes → letter.Fills buffer →
      InHand numBoxes ident buffer (.putting (letter.pktHdr ident) letter.mailHdr) [letter]

theorem Letter.packet_not_empty (legal : letter.mailHdr.Legal numBoxes) (ident : Word) :
    (letter.pktHdr ident).length ≠ 0#32 := by
  intro zero
  have length := toNat_packet_length legal.1
  rw [show letter.mailHdr.length + BitVec.ofNat 32 mailHeaderSize = 0#32 from zero] at length
  have positive : (0#32 : Word).toNat = 0 := rfl
  rw [positive, show mailHeaderSize = 12 from rfl] at length
  omega

variable {network : Network}

theorem Buffered.empty_iff {slot : List Letter} (buffered : Buffered numBoxes network slot) :
    network.inHdr.length = 0#32 ↔ slot = [] := by
  cases buffered with
  | empty none => exact iff_of_true none rfl
  | full legal header =>
    refine iff_of_false ?_ (List.cons_ne_nil _ _)
    rw [header]
    exact Letter.packet_not_empty legal _

/-- The device takes the packet of a letter into its empty buffer. -/
theorem Letter.CarriedBy.accept {packet : List Byte}
    (carried : letter.CarriedBy network.ident numBoxes packet) :
    ∃ after, network.accept packet = .ok after ∧
      after.ident = network.ident ∧ Buffered numBoxes after [letter] := by
  have short : (letter.pktHdr network.ident).length.toNat ≤
      maxPacketSize := by
    rw [Letter.pktHdr, toNat_packet_length carried.legal.1]
    exact Nat.add_le_add_left carried.legal.1 mailHeaderSize
  obtain ⟨inbox, accepted, copied⟩ :=
    Network.accept_eq carried.header rfl short
  refine ⟨_, accepted, rfl, .full carried.legal rfl ?_⟩
  apply carried.fills.congr
  intro offset inside
  apply copied offset
  rw [Letter.pktHdr, toNat_packet_length carried.legal.1]
  exact inside

theorem Letter.Fills.receive (legal : letter.mailHdr.Legal numBoxes)
    (header : network.inHdr = letter.pktHdr network.ident)
    (fills : letter.Fills network.inbox) (buffer : Nat → Byte) :
    letter.Fills (network.receive buffer).2.1 := by
  apply fills.congr
  intro offset inside
  apply Network.receive_data
  rw [header, Letter.pktHdr, toNat_packet_length legal.1]
  exact inside

theorem Letter.Fills.mail {image : Nat → Byte}
    (legal : letter.mailHdr.Legal numBoxes) (fills : letter.Fills image)
    (ident : Word) :
    Mail.new (letter.pktHdr ident) letter.mailHdr
      (fun offset => image (mailHeaderSize + offset)) =
    .ok (letter.mail ident) := by
  unfold Mail.new
  rw [if_pos legal.1, Letter.mail, ← fills.data]
  simp only [slice, Nat.zero_add]

namespace Post

/-- The messages which have been read from the socket and are not yet in a
box. -/
def inTransit (state : Post) : Nat :=
  (match state.worker with
    | .putting _ _ => 1
    | _ => 0) +
  if state.network.inHdr.length = 0#32 then 0 else 1

/-- All messages which have been put into the box. -/
def arrived (state : Post) (box : Nat) : List Mail :=
  state.fetched box ++ state.boxes box

/-- The messages of a list for one box, as they are queued there. -/
def addressed (ident : Word) (letters : List Letter) (box : Nat) :
    List Mail :=
  (letters.filter fun letter => letter.mailHdr.box = box).map fun letter =>
    letter.mail ident

/-- The worker has to answer for the message in the buffer: it has taken the
signal or the signal is there. -/
def signals (state : Post) : Nat :=
  state.messageAvailable.value + if state.worker = .receiving then 1 else 0

/-- The delivered messages are `queued` in the boxes, in the `hand` of the
worker, or in the `slot` of the device. -/
structure Delivering (ident : Word) (numBoxes : Nat) (state : Post)
    (queued hand slot : List Letter) : Prop where
  sameIdent : state.network.ident = ident
  sameBoxes : state.numBoxes = numBoxes
  carried : ∀ wire ∈ state.socket, wire.2.CarriedBy ident numBoxes wire.1
  order : (state.delivered ++ state.socket.map Prod.snd).Sublist state.sent
  legal : ∀ letter ∈ state.sent, letter.mailHdr.Legal numBoxes
  delivered : state.delivered = queued ++ hand ++ slot
  inHand : InHand numBoxes ident state.buffer state.worker hand
  buffered : Buffered numBoxes state.network slot
  signalled : state.signals = slot.length
  asleep : state.messageAvailable.queue = [] ∨
    state.messageAvailable.queue = [()] ∧ state.worker = .awaiting ∧
      state.messageAvailable.value = 0
  arrived : ∀ box, state.arrived box = addressed ident queued box

namespace Delivering

variable {ident : Word} {numBoxes : Nat} {state after : Post} {queued hand slot : List Letter}

theorem boot (ident : Word) (numBoxes : Nat) (fresh : Network) (buffer : Nat → Byte) :
    Delivering ident numBoxes (Post.boot ident numBoxes fresh buffer) [] [] [] where
  sameIdent := rfl
  sameBoxes := rfl
  carried := fun _ member => absurd member List.not_mem_nil
  order := .slnil
  legal := fun _ member => absurd member List.not_mem_nil
  delivered := rfl
  inHand := .awaiting
  buffered := .empty rfl
  signalled := rfl
  asleep := .inl rfl
  arrived := fun _ => rfl

variable {mailHdr : MailHeader} {pktHdr : PacketHeader}

theorem send {sender : Network} {data mailBuffer buffer : Nat → Byte}
    (delivering : Delivering ident numBoxes state queued hand slot)
    (own : pktHdr.toAddr = state.network.ident)
    (success : state.send sender pktHdr mailHdr data mailBuffer buffer = .ok after) :
    Delivering ident numBoxes after queued hand slot := by
  unfold Post.send at success
  cases composed : PostOffice.send sender.ident state.numBoxes pktHdr mailHdr data mailBuffer with
  | error fault =>
    rw [composed] at success
    cases success
  | ok message =>
    obtain ⟨hdr, payload⟩ := message
    obtain ⟨legal, same, fills⟩ := PostOffice.send_inv composed
    cases put : sender.send hdr payload buffer with
    | error fault =>
      simp only [composed, put, bind, Except.bind] at success
      cases success
    | ok packet =>
      simp only [composed, put, bind, Except.bind, pure, Except.pure] at success
      cases success
      rw [same, own, delivering.sameIdent] at put
      rw [delivering.sameBoxes] at legal
      refine { delivering with carried := ?_, order := ?_, legal := ?_ }
      · intro wire member
        rcases List.mem_append.mp member with old | new
        · exact delivering.carried wire old
        · cases List.mem_singleton.mp new
          exact Letter.carriedBy_of_send legal fills put
      · simp only [List.map_append, ← List.append_assoc]
        exact delivering.order.append (.refl _)
      · intro letter member
        rcases List.mem_append.mp member with old | new
        · exact delivering.legal letter old
        · cases List.mem_singleton.mp new
          exact legal

theorem send_succeeds {sender : Network} (data mailBuffer buffer : Nat → Byte)
    (delivering : Delivering ident numBoxes state queued hand slot)
    (idle : sender.sendBusy = false) (legal : mailHdr.Legal numBoxes) :
    ∃ after, state.send sender pktHdr mailHdr data mailBuffer buffer =
      .ok after := by
  have length := toNat_packet_length legal.1
  have short : mailHeaderSize + mailHdr.length.toNat ≤ maxPacketSize :=
    Nat.add_le_add_left legal.1 mailHeaderSize
  have positive : 0 < mailHeaderSize + mailHdr.length.toNat :=
    Nat.add_pos_left (by decide) _
  rw [← length] at short positive
  unfold Post.send PostOffice.send Network.send
  rw [delivering.sameBoxes, if_pos legal]
  simp only [bind, Except.bind]
  rw [if_pos ⟨idle, positive, short, trivial⟩]
  exact ⟨_, rfl⟩

theorem lose (delivering : Delivering ident numBoxes state queued hand slot) (index : Nat) :
    Delivering ident numBoxes { state with socket := state.socket.eraseIdx index }
      queued hand slot := by
  have fewer := List.eraseIdx_sublist state.socket index
  refine { delivering with carried := ?_, order := ?_ }
  · intro wire member
    exact delivering.carried wire (fewer.subset member)
  · exact ((List.Sublist.refl _).append (fewer.map Prod.snd)).trans delivering.order

theorem poll (delivering : Delivering ident numBoxes state queued hand slot) (readable : Bool) :
    ∃ after slot, state.poll readable = .ok after ∧
      Delivering ident numBoxes after queued hand slot := by
  unfold Post.poll
  split
  · exact ⟨state, slot, rfl, delivering⟩
  · rename_i free
    cases delivering.buffered.empty_iff.mp (not_not.mp free)
    split
    · rename_i packet letter rest waiting
      have carried := delivering.carried (packet, letter)
        (by rw [waiting]; exact List.mem_cons_self)
      rw [← delivering.sameIdent] at carried
      obtain ⟨network, accepted, sameIdent, buffered⟩ := carried.accept
      rw [accepted]
      refine ⟨_, [letter], rfl, ?_⟩
      refine { delivering with
        sameIdent := sameIdent.trans delivering.sameIdent
        carried := ?_
        order := ?_
        delivered := ?_
        buffered := buffered
        signalled := ?_
        asleep := ?_ }
      · intro wire member
        exact delivering.carried wire (by rw [waiting]; exact List.mem_cons_of_mem _ member)
      · have order := delivering.order
        rw [waiting] at order
        simpa using order
      · simp [delivering.delivered]
      · have signalled := delivering.signalled
        simp only [signals, Semaphore.release, List.length_nil,
          List.length_singleton] at signalled ⊢
        omega
      · left
        rcases delivering.asleep with empty | ⟨sleeping, -⟩
        · simp [Semaphore.release, empty]
        · simp [Semaphore.release, sleeping]
    · exact ⟨state, [], rfl, delivering⟩

theorem addressed_snoc (ident : Word) (letters : List Letter) (letter : Letter) (box : Nat) :
    addressed ident (letters ++ [letter]) box =
      addressed ident letters box ++
        if letter.mailHdr.box = box then [letter.mail ident] else [] := by
  simp only [addressed, List.filter_append, List.map_append]
  by_cases here : letter.mailHdr.box = box <;> simp [here]

theorem arrived_put (state : Post) (target : Nat) (mail : Mail) (box : Nat) : ({ state with
        boxes := update state.boxes target (state.boxes target ++ [mail])
        worker := .awaiting } : Post).arrived box =
      state.arrived box ++ if target = box then [mail] else [] := by
  simp only [Post.arrived]
  by_cases here : target = box
  · subst here
    simp
  · rw [update_of_ne (Ne.symm here), if_neg here, List.append_nil]

variable (delivering : Delivering ident numBoxes state queued hand slot)
include delivering

section

variable (awake : state.messageAvailable.queue = [])
include awake

theorem work_awaiting (awaiting : state.worker = .awaiting) :
    ∃ after, state.work = .ok after ∧
      Delivering ident numBoxes after queued hand slot := by
  unfold Post.work
  rw [awaiting]
  have inHand := delivering.inHand
  rw [awaiting] at inHand
  cases inHand
  have signalled := delivering.signalled
  simp only [signals, awaiting, reduceCtorEq, if_false] at signalled
  cases available : state.messageAvailable.take with
  | some taken =>
    have value := Semaphore.take_inv available
    refine ⟨_, rfl, { delivering with
      inHand := .receiving
      signalled := ?_
      asleep := .inl (value.2.trans awake) }⟩
    simp only [signals, if_true]
    omega
  | none =>
    have zero := Semaphore.take_eq_none_iff.mp available
    refine ⟨_, rfl, { delivering with
      inHand := .awaiting
      signalled := signalled
      asleep := .inr ⟨?_, rfl, zero⟩ }⟩
    simp only [Semaphore.sleep, awake, List.nil_append]

/-- After a signal there is a message in the slot, and the worker takes it
in hand. -/
theorem work_receiving (receiving : state.worker = .receiving) :
    ∃ after, state.work = .ok after ∧ Delivering ident numBoxes after queued slot [] := by
  have inHand := delivering.inHand
  rw [receiving] at inHand
  cases inHand
  have signalled := delivering.signalled
  simp only [signals, receiving, if_true] at signalled
  have buffered := delivering.buffered
  cases buffered with
  | empty none => cases signalled
  | @full letter legal header fills =>
    have received := Letter.Fills.receive legal header fills state.buffer
    have accepted : letter.mailHdr.Legal state.numBoxes := by
      rw [delivering.sameBoxes]
      exact legal
    unfold Post.work
    rw [receiving]
    simp only [received.header, if_pos accepted]
    refine ⟨_, rfl, { delivering with
      delivered := ?_
      inHand := ?_
      buffered := .empty rfl
      signalled := ?_
      asleep := .inl awake }⟩
    · simpa using delivering.delivered
    · rw [show (state.network.receive state.buffer).1 = letter.pktHdr ident from header.trans
          (congrArg letter.pktHdr delivering.sameIdent)]
      exact .putting legal received
    · simp only [signals, reduceCtorEq, if_false, List.length_nil]
      exact Nat.succ.inj signalled

theorem work_putting (putting : state.worker = .putting pktHdr mailHdr) :
    ∃ after, state.work = .ok after ∧ Delivering ident numBoxes after (queued ++ hand) [] slot := by
  unfold Post.work Post.put
  rw [putting]
  have inHand := delivering.inHand
  rw [putting] at inHand
  cases inHand with
  | @putting letter legal fills =>
    simp only [fills.mail legal ident, bind, Except.bind]
    refine ⟨_, rfl, { delivering with
      delivered := ?_
      inHand := .awaiting
      signalled := ?_
      asleep := .inl awake
      arrived := ?_ }⟩
    · simpa using delivering.delivered
    · have signalled := delivering.signalled
      simpa [signals, putting] using signalled
    · intro box
      rw [arrived_put, addressed_snoc, delivering.arrived]

theorem work :
    ∃ after queued hand slot, state.work = .ok after ∧
      Delivering ident numBoxes after queued hand slot := by
  cases point : state.worker with
  | awaiting =>
    obtain ⟨after, success, kept⟩ := delivering.work_awaiting awake point
    exact ⟨after, _, _, _, success, kept⟩
  | receiving =>
    obtain ⟨after, success, kept⟩ := delivering.work_receiving awake point
    exact ⟨after, _, _, _, success, kept⟩
  | putting pktHdr mailHdr =>
    obtain ⟨after, success, kept⟩ := delivering.work_putting awake point
    exact ⟨after, _, _, _, success, kept⟩

end

/-- A message is there to be fetched; all that have been put into the box
stay on record. -/
theorem receive {box : Nat} (success : state.receive box = .ok after) :
    Delivering ident numBoxes after queued hand slot := by
  unfold Post.receive at success
  split at success
  · split at success
    · cases success
    · rename_i mail rest contents
      split at success
      · cases success
        refine { delivering with arrived := ?_ }
        intro other
        rw [← delivering.arrived]
        simp only [Post.arrived]
        by_cases same : other = box
        · subst same
          simp [contents]
        · rw [update_of_ne same, update_of_ne same]
      · cases success
  · cases success

theorem mem_boxes {box : Nat} {mail : Mail} (member : mail ∈ state.boxes box) :
    ∃ letter ∈ state.sent, letter.mailHdr.box = box ∧ letter.mail ident = mail := by
  have arrived : mail ∈ state.arrived box :=
    List.mem_append_right _ member
  rw [delivering.arrived, addressed] at arrived
  obtain ⟨letter, filtered, same⟩ := List.mem_map.mp arrived
  obtain ⟨inQueue, here⟩ := List.mem_filter.mp filtered
  refine ⟨letter, delivering.order.subset ?_, of_decide_eq_true here, same⟩
  rw [delivering.delivered, List.append_assoc, List.append_assoc]
  exact List.mem_append_left _ inQueue

theorem receive_succeeds {box : Nat} (nonempty : state.boxes box ≠ []) :
    ∃ after, state.receive box = .ok after := by
  cases contents : state.boxes box with
  | nil => exact absurd contents nonempty
  | cons mail rest =>
    obtain ⟨letter, sent, here, rfl⟩ := delivering.mem_boxes
      (by rw [contents]; exact List.mem_cons_self)
    have legal := delivering.legal letter sent
    have inside : box < state.numBoxes := by
      have positive := legal.2.1
      have below := legal.2.2
      rw [← here, MailHeader.box, delivering.sameBoxes]
      omega
    unfold Post.receive
    rw [if_pos inside, contents]
    exact ⟨_, if_pos legal.1⟩

theorem inTransit : state.inTransit = (hand ++ slot).length := by
  have held : (match state.worker with
      | .putting _ _ => 1
      | _ => 0) = hand.length := by
    have inHand := delivering.inHand
    generalize state.worker = point at inHand
    cases inHand <;> rfl
  have stored : (if state.network.inHdr.length = 0#32 then 0 else 1) =
      slot.length := by
    have empty := delivering.buffered.empty_iff
    have buffered := delivering.buffered
    generalize state.network = network at buffered empty
    cases buffered with
    | empty none => rw [if_pos none, List.length_nil]
    | full => rw [if_neg (empty.not.mpr (List.cons_ne_nil _ _)),
        List.length_singleton]
  rw [List.length_append, ← held, ← stored]
  rfl

/-- While a message is on its way the worker does not sleep. -/
theorem awake_of_inTransit (moving : state.inTransit ≠ 0) : state.messageAvailable.queue = [] := by
  rcases delivering.asleep with awake | ⟨-, awaiting, zero⟩
  · exact awake
  · exfalso
    apply moving
    have inHand := delivering.inHand
    rw [awaiting] at inHand
    cases inHand
    rw [delivering.inTransit, List.nil_append, ← delivering.signalled]
    simp only [signals, awaiting, zero, reduceCtorEq, if_false]

end Delivering

theorem delivering_of_run {ident : Word} {numBoxes : Nat} {fresh : Network}
    {buffer : Nat → Byte} {events : List PostEvent} {state : Post}
    (run : Run Step (boot ident numBoxes fresh buffer) events state) :
    ∃ queued hand slot,
      Delivering ident numBoxes state queued hand slot := by
  refine run.history (fun _ state => ∃ queued hand slot,
    Delivering ident numBoxes state queued hand slot)
    ⟨[], [], [], .boot ident numBoxes fresh buffer⟩ ?_
  rintro past before event after ⟨queued, hand, slot, delivering⟩ taken
  cases event with
  | send sender pktHdr mailHdr data mailBuffer buffer =>
    simp only [Step, next] at taken
    split at taken
    · rename_i own
      exact ⟨_, _, _, delivering.send own (eq_ok_of_toOption taken)⟩
    · cases taken
  | lose index =>
    cases taken
    exact ⟨_, _, _, delivering.lose index⟩
  | poll readable =>
    obtain ⟨polled, slot, success, kept⟩ := delivering.poll readable
    simp only [Step, next, success] at taken
    cases taken
    exact ⟨_, _, _, kept⟩
  | work =>
    simp only [Step, next] at taken
    split at taken
    · cases taken
    · rename_i awake
      have empty : before.messageAvailable.queue = [] := by
        rcases delivering.asleep with empty | ⟨sleeping, -⟩
        · exact empty
        · rw [sleeping] at awake
          exact absurd List.mem_cons_self awake
      obtain ⟨worked, queued, hand, slot, success, kept⟩ :=
        delivering.work empty
      rw [success] at taken
      cases taken
      exact ⟨_, _, _, kept⟩
  | receive box =>
    exact ⟨_, _, _, delivering.receive (eq_ok_of_toOption taken)⟩

/-- Legal messages can be sent, no `ASSERT` fails on the receiving machine,
and each box gets, in order and once each, the delivered messages for it, but
for those which the worker is about to put there. -/
theorem mail_delivered (ident : Word) (numBoxes : Nat) (fresh : Network)
    (buffer : Nat → Byte) (events : List PostEvent) (state : Post)
    (run : Run Step (boot ident numBoxes fresh buffer) events state) :
    (∀ sender pktHdr mailHdr data mailBuffer buffer,
      sender.sendBusy = false → mailHdr.Legal numBoxes → ∃ after,
      state.send sender pktHdr mailHdr data mailBuffer buffer =
        .ok after) ∧
    (∀ readable, ∃ after, state.poll readable = .ok after) ∧
    (() ∉ state.messageAvailable.queue → ∃ after, state.work = .ok after) ∧
    (∀ box, state.boxes box ≠ [] → ∃ after, state.receive box = .ok after) ∧
    state.delivered.Sublist state.sent ∧
    (state.inTransit ≠ 0 → () ∉ state.messageAvailable.queue) ∧
    ∃ queued moving, state.delivered = queued ++ moving ∧
      moving.length = state.inTransit ∧
      ∀ box, state.arrived box = addressed ident queued box := by
  obtain ⟨queued, hand, slot, delivering⟩ := delivering_of_run run
  refine ⟨?_, ?_, ?_, ?_, ?_, ?_, queued, hand ++ slot, ?_, ?_, ?_⟩
  · intro sender pktHdr mailHdr data mailBuffer buffer idle legal
    exact delivering.send_succeeds data mailBuffer buffer idle legal
  · intro readable
    obtain ⟨after, -, success, -⟩ := delivering.poll readable
    exact ⟨after, success⟩
  · intro awake
    obtain ⟨after, -, -, -, success, -⟩ := delivering.work
      (List.eq_nil_iff_forall_not_mem.mpr fun _ => awake)
    exact ⟨after, success⟩
  · intro box nonempty
    exact delivering.receive_succeeds nonempty
  · exact (List.sublist_append_left _ _).trans delivering.order
  · intro moving
    rw [delivering.awake_of_inTransit moving]
    exact List.not_mem_nil
  · rw [delivering.delivered, List.append_assoc]
  · exact delivering.inTransit.symm
  · exact delivering.arrived

/-- Machine 2 sends two bytes to box 3 of machine 1. -/
def twoBytes : Letter :=
  ⟨2#32, ⟨3#32, 5#32, 2#32⟩, [104#8, 105#8]⟩

def sendTwoBytes : PostEvent :=
  .send { NetworkOutput.blank with ident := 2#32 } ⟨1#32, 0#32, 0#32⟩
    twoBytes.mailHdr (fun offset => BitVec.ofNat 8 (104 + offset))
    (fun _ => 0#8) (fun _ => 0#8)

theorem mail_delivered_two_bytes : ∃ state, Run Step (boot 1#32 10 NetworkOutput.blank fun _ => 0#8)
        [sendTwoBytes, .poll true, .work, .work, .work] state ∧
      state.arrived 3 = [twoBytes.mail 1#32] := by
  obtain ⟨state, run, fetched, idle⟩ := @exists_run_of_replay _ _ next Step
    (boot 1#32 10 NetworkOutput.blank fun _ => 0#8)
    [sendTwoBytes, .poll true, .work, .work, .work]
    (fun state => state.delivered = [twoBytes] ∧ state.inTransit = 0) _
    (fun _ _ _ => id) (by decide +kernel)
  obtain ⟨-, -, -, -, -, -, queued, moving, delivered, count, arrived⟩ :=
    mail_delivered 1#32 10 NetworkOutput.blank (fun _ => 0#8) _ _ run
  rw [idle] at count
  rw [List.length_eq_zero_iff.mp count, List.append_nil, fetched] at delivered
  refine ⟨state, run, ?_⟩
  rw [arrived, ← delivered]
  rfl

end Post

end Nachos
