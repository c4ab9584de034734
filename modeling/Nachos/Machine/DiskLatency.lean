import Nachos.FileSys.Disk
import Nachos.Lib.Rotation
import Nachos.Lib.Transition

/-!
# The latency of the disk

The simulated disk computes how long a request takes from where the head is
when the request arrives: the seek, the wait for the next sector boundary,
the wait for the sector, and its transfer.  Reads of the current track may
be served from the track buffer, which holds what has passed under the head
since `bufferInit`.
-/

open Words Rotation Transition

namespace Nachos

def rotationTime : Int := 500

def seekTime : Int := 500

/-- Where the head of the disk is, and since when it is on its track. -/
structure DiskHead where
  lastSector : Int
  bufferInit : Int
  deriving DecidableEq

namespace DiskHead

/-! ## The computation -/

/-- `Disk::TimeToSeek`: the seek, and the wait for the next boundary. -/
def timeToSeek (head : DiskHead) (totalTicks newSector : Int) : Int × Int :=
  let newTrack := newSector.tdiv sectorsPerTrack
  let oldTrack := head.lastSector.tdiv sectorsPerTrack
  let seek := wrap32 (|wrap32 (newTrack - oldTrack)| * seekTime)
  let overTicks := (wrap32 (totalTicks + seek)).tmod rotationTime
  (seek, if 0 < overTicks then wrap32 (rotationTime - overTicks) else 0)

/-- `Disk::ModuloDiff`. -/
def moduloDiff (target current : Int) : Int :=
  let toOffset := target.tmod sectorsPerTrack
  let fromOffset := current.tmod sectorsPerTrack
  (wrap32 (wrap32 (toOffset - fromOffset) + sectorsPerTrack)).tmod sectorsPerTrack

/-- `timeAfter` of `Disk::ComputeLatency`. -/
def timeAfter (head : DiskHead) (totalTicks newSector : Int) : Int :=
  let (seek, rotation) := head.timeToSeek totalTicks newSector
  wrap32 (wrap32 (totalTicks + seek) + rotation)

/-- The condition under which the track buffer serves a request. -/
def trackBufferApplies (head : DiskHead) (totalTicks newSector : Int) (writing : Bool) : Bool :=
  writing = false && (head.timeToSeek totalTicks newSector).1 = 0 &&
    moduloDiff newSector (head.bufferInit.tdiv rotationTime) <
      (wrap32 (head.timeAfter totalTicks newSector - head.bufferInit)).tdiv rotationTime

/-- The latency when the track buffer does not apply. -/
def unbufferedLatency (head : DiskHead) (totalTicks newSector : Int) : Int :=
  let (seek, rotation) := head.timeToSeek totalTicks newSector
  let rotation := wrap32 (rotation + wrap32 (moduloDiff newSector
    ((head.timeAfter totalTicks newSector).tdiv rotationTime) * rotationTime))
  wrap32 (wrap32 (seek + rotation) + rotationTime)

/-- `Disk::ComputeLatency`. -/
def computeLatency (head : DiskHead) (totalTicks newSector : Int) (writing : Bool) : Int :=
  if head.trackBufferApplies totalTicks newSector writing then rotationTime
  else head.unbufferedLatency totalTicks newSector

/-- `Disk::UpdateLast`. -/
def updateLast (head : DiskHead) (totalTicks newSector : Int) : DiskHead :=
  let (seek, rotate) := head.timeToSeek totalTicks newSector
  { bufferInit :=
      if seek ≠ 0 then wrap32 (wrap32 (totalTicks + seek) + rotate)
      else head.bufferInit
    lastSector := newSector }

/-! ## The exact values -/

/-- The time for the head to reach the track of a sector. -/
def seekTicks (oldSector newSector : SectorIndex) : Int :=
  |(newSector.val / sectorsPerTrack : Int) -
    oldSector.val / sectorsPerTrack| * seekTime

theorem seekTicks_nonneg (oldSector newSector : SectorIndex) :
    0 ≤ seekTicks oldSector newSector := by
  unfold seekTicks seekTime
  positivity

theorem seekTicks_lt (oldSector newSector : SectorIndex) :
    seekTicks oldSector newSector < 16000 := by
  have oldBound : oldSector.val < 1024 := oldSector.isLt
  have newBound : newSector.val < 1024 := newSector.isLt
  have sectors : (sectorsPerTrack : Int) = 32 := rfl
  have close : |(newSector.val / sectorsPerTrack : Int) -
      oldSector.val / sectorsPerTrack| < 32 := by
    rw [abs_lt, sectors]
    omega
  unfold seekTicks seekTime
  omega

section

variable {lastSector newSector : SectorIndex} {totalTicks bufferInit : Int}

/-- The first boundary between sectors after the seek. -/
def arrival (lastSector newSector : SectorIndex) (totalTicks : Int) : Int :=
  roundUp rotationTime (totalTicks + seekTicks lastSector newSector)

theorem rotationTime_pos : 0 < rotationTime := by decide

theorem seek_le_arrival (lastSector newSector : SectorIndex) (totalTicks : Int) :
    totalTicks + seekTicks lastSector newSector ≤
      arrival lastSector newSector totalTicks :=
  le_roundUp rotationTime_pos _

theorem arrival_lt (lastSector newSector : SectorIndex) (totalTicks : Int) :
    arrival lastSector newSector totalTicks <
      totalTicks + seekTicks lastSector newSector + rotationTime :=
  roundUp_lt rotationTime_pos _

theorem rounding_eq {time : Int} (nonneg : 0 ≤ time) : (if 0 < time.tmod rotationTime then
      wrap32 (rotationTime - time.tmod rotationTime) else 0) =
      roundUp rotationTime time - time := by
  have ticks : rotationTime = 500 := rfl
  rw [Int.tmod_eq_emod_of_nonneg nonneg, ticks, roundUp]
  split
  · rw [wrap32_eq (by unfold InRange; omega)]
    omega
  · omega

theorem tmod_sectorsPerTrack (value : Int) :
    (0 ≤ value ∧ value.tmod sectorsPerTrack = value % 32) ∨
      (value < 0 ∧ value.tmod sectorsPerTrack = -(-value % 32)) := by
  have sectors : (sectorsPerTrack : Int) = 32 := rfl
  rw [sectors]
  by_cases nonneg : 0 ≤ value
  · exact .inl ⟨nonneg, Int.tmod_eq_emod_of_nonneg nonneg⟩
  · refine .inr ⟨by omega, ?_⟩
    rw [← Int.tmod_eq_emod_of_nonneg (by omega : 0 ≤ -value), Int.neg_tmod, Int.neg_neg]

/-- `ModuloDiff` is the delay of a sector, also before time zero. -/
theorem moduloDiff_eq {target : Int} (nonneg : 0 ≤ target) (current : Int) :
    moduloDiff target current = delay sectorsPerTrack target current := by
  have sectors : (sectorsPerTrack : Int) = 32 := rfl
  have targetOffset := tmod_sectorsPerTrack target
  have currentOffset := tmod_sectorsPerTrack current
  have difference : InRange (target.tmod sectorsPerTrack - current.tmod sectorsPerTrack) := by
    unfold InRange
    omega
  have shifted : InRange (target.tmod sectorsPerTrack -
      current.tmod sectorsPerTrack + sectorsPerTrack) := by
    unfold InRange
    omega
  have positive : 0 ≤ target.tmod sectorsPerTrack -
      current.tmod sectorsPerTrack + sectorsPerTrack := by
    omega
  unfold moduloDiff delay
  dsimp only
  rw [wrap32_eq difference, wrap32_eq shifted, Int.tmod_eq_emod_of_nonneg positive]
  rw [sectors] at targetOffset currentOffset ⊢
  omega

theorem dvd_arrival (lastSector newSector : SectorIndex) (totalTicks : Int) :
    rotationTime ∣ arrival lastSector newSector totalTicks :=
  dvd_roundUp _ _

/-- The delay of the sector on the platter. -/
def sectorDelay (newSector : SectorIndex) (boundary : Int) : Int :=
  delay sectorsPerTrack newSector.val (boundary / rotationTime)

theorem sectorDelay_nonneg (newSector : SectorIndex) (boundary : Int) :
    0 ≤ sectorDelay newSector boundary :=
  delay_nonneg (by decide) _ _

theorem sectorDelay_lt (newSector : SectorIndex) (boundary : Int) :
    sectorDelay newSector boundary < 32 :=
  delay_lt (by decide) _ _

variable (nonneg : 0 ≤ totalTicks) (fits : InRange (arrival lastSector newSector totalTicks))
include nonneg fits

theorem ticks_fit : InRange (totalTicks + seekTicks lastSector newSector) := by
  have seekNonneg := seekTicks_nonneg lastSector newSector
  have later := seek_le_arrival lastSector newSector totalTicks
  unfold InRange at fits ⊢
  omega

theorem timeToSeek_eq :
    timeToSeek ⟨lastSector.val, bufferInit⟩ totalTicks newSector.val =
      (seekTicks lastSector newSector, arrival lastSector newSector totalTicks -
          (totalTicks + seekTicks lastSector newSector)) := by
  have seekNonneg := seekTicks_nonneg lastSector newSector
  have seekBound := seekTicks_lt lastSector newSector
  have oldTrack : (lastSector.val : Int).tdiv sectorsPerTrack = lastSector.val / sectorsPerTrack :=
    Int.tdiv_eq_ediv_of_nonneg (Int.natCast_nonneg _)
  have newTrack : (newSector.val : Int).tdiv sectorsPerTrack = newSector.val / sectorsPerTrack :=
    Int.tdiv_eq_ediv_of_nonneg (Int.natCast_nonneg _)
  have tracksFit : InRange ((newSector.val / sectorsPerTrack : Int) -
      lastSector.val / sectorsPerTrack) := by
    have oldBound : lastSector.val < 1024 := lastSector.isLt
    have newBound : newSector.val < 1024 := newSector.isLt
    have sectors : (sectorsPerTrack : Int) = 32 := rfl
    unfold InRange
    rw [sectors]
    omega
  have seek : wrap32 (|wrap32 ((newSector.val / sectorsPerTrack : Int) -
      lastSector.val / sectorsPerTrack)| * seekTime) =
      seekTicks lastSector newSector := by
    rw [wrap32_eq tracksFit]
    apply wrap32_eq
    change InRange (seekTicks lastSector newSector)
    unfold InRange
    omega
  unfold timeToSeek
  simp only [oldTrack, newTrack, seek, wrap32_eq (ticks_fit nonneg fits)]
  congr 1
  exact rounding_eq (by omega)

theorem timeAfter_eq :
    timeAfter ⟨lastSector.val, bufferInit⟩ totalTicks newSector.val =
      arrival lastSector newSector totalTicks := by
  simp only [timeAfter, timeToSeek_eq nonneg fits, wrap32_eq (ticks_fit nonneg fits),
    add_sub_cancel, wrap32_eq fits]

theorem unbufferedLatency_eq : unbufferedLatency ⟨lastSector.val, bufferInit⟩ totalTicks
        newSector.val =
      arrival lastSector newSector totalTicks - totalTicks +
        sectorDelay newSector (arrival lastSector newSector totalTicks) *
          rotationTime + rotationTime := by
  have time : rotationTime = 500 := rfl
  have seekNonneg := seekTicks_nonneg lastSector newSector
  have seekBound := seekTicks_lt lastSector newSector
  have later := seek_le_arrival lastSector newSector totalTicks
  have soon := arrival_lt lastSector newSector totalTicks
  have boundary :
      (arrival lastSector newSector totalTicks).tdiv rotationTime =
        arrival lastSector newSector totalTicks / rotationTime :=
    Int.tdiv_eq_ediv_of_nonneg (by omega)
  have wait := sectorDelay_nonneg newSector (arrival lastSector newSector totalTicks)
  have waitBound := sectorDelay_lt newSector (arrival lastSector newSector totalTicks)
  simp only [unbufferedLatency, timeToSeek_eq nonneg fits,
    timeAfter_eq nonneg fits, boundary,
    moduloDiff_eq (Int.natCast_nonneg newSector.val)]
  rw [← sectorDelay]
  generalize sectorDelay newSector
    (arrival lastSector newSector totalTicks) = turns at wait waitBound ⊢
  generalize arrival lastSector newSector totalTicks = first at later soon ⊢
  generalize seekTicks lastSector newSector = seek at *
  have wholeTurns : turns * rotationTime = turns * 500 := rfl
  have turnsFit : InRange (turns * rotationTime) := by
    unfold InRange
    omega
  have rotationFits : InRange (first - (totalTicks + seek) + turns * rotationTime) := by
    unfold InRange
    omega
  have positionFits : InRange (seek + (first - (totalTicks + seek) + turns * rotationTime)) := by
    unfold InRange
    omega
  have latencyFits : InRange
      (seek + (first - (totalTicks + seek) + turns * rotationTime) + rotationTime) := by
    unfold InRange
    omega
  rw [wrap32_eq turnsFit, wrap32_eq rotationFits, wrap32_eq positionFits, wrap32_eq latencyFits]
  omega

theorem trackBufferApplies_iff (divides : rotationTime ∣ bufferInit)
    (earlier : bufferInit ≤ totalTicks)
    (ageFits : InRange (arrival lastSector newSector totalTicks - bufferInit))
    (noSeek : seekTicks lastSector newSector = 0) :
    trackBufferApplies ⟨lastSector.val, bufferInit⟩ totalTicks
        newSector.val false = true ↔
      sectorDelay newSector bufferInit < (arrival lastSector newSector totalTicks - bufferInit) /
          rotationTime := by
  have later := seek_le_arrival lastSector newSector totalTicks
  have age : (arrival lastSector newSector totalTicks -
      bufferInit).tdiv rotationTime =
      (arrival lastSector newSector totalTicks - bufferInit) /
        rotationTime :=
    Int.tdiv_eq_ediv_of_nonneg (by omega)
  have start : bufferInit.tdiv rotationTime = bufferInit / rotationTime :=
    Int.tdiv_eq_ediv_of_dvd divides
  simp only [trackBufferApplies, timeToSeek_eq nonneg fits,
    timeAfter_eq nonneg fits, wrap32_eq ageFits, age, start, noSeek,
    moduloDiff_eq (Int.natCast_nonneg newSector.val), sectorDelay]
  simp

theorem rotationTime_le_unbufferedLatency :
    rotationTime ≤ unbufferedLatency ⟨lastSector.val, bufferInit⟩ totalTicks
      newSector.val := by
  have time : rotationTime = 500 := rfl
  have later := seek_le_arrival lastSector newSector totalTicks
  have seekNonneg := seekTicks_nonneg lastSector newSector
  have wait := sectorDelay_nonneg newSector (arrival lastSector newSector totalTicks)
  rw [unbufferedLatency_eq nonneg fits, time]
  omega

theorem rotationTime_le_computeLatency {writing : Bool} :
    rotationTime ≤ computeLatency ⟨lastSector.val, bufferInit⟩ totalTicks
      newSector.val writing := by
  unfold computeLatency
  split
  · exact le_refl _
  · exact rotationTime_le_unbufferedLatency nonneg fits

/-- Without the buffer, the transfer starts when the sector first comes under
the head. -/
theorem isLeast_unbuffered : IsLeast (passages rotationTime sectorsPerTrack newSector.val
        (totalTicks + seekTicks lastSector newSector))
      (totalTicks + unbufferedLatency ⟨lastSector.val, bufferInit⟩
        totalTicks newSector.val - rotationTime) := by
  have passage := isLeast_passages rotationTime_pos
    (by decide : 0 < (sectorsPerTrack : Int)) newSector.val
    (dvd_arrival lastSector newSector totalTicks)
  rw [passages_roundUp rotationTime_pos, ← arrival]
  convert passage using 1
  rw [unbufferedLatency_eq nonneg fits, sectorDelay]
  omega

/-- The track buffer serves a read on the track of the head exactly when the
sector has passed since the buffer was started. -/
theorem trackBufferApplies_iff_passed (divides : rotationTime ∣ bufferInit)
    (earlier : bufferInit ≤ totalTicks)
    (ageFits : InRange (arrival lastSector newSector totalTicks - bufferInit))
    (noSeek : seekTicks lastSector newSector = 0) :
    trackBufferApplies ⟨lastSector.val, bufferInit⟩ totalTicks
        newSector.val false = true ↔
      ∃ boundary,
        IsLeast {time | totalTicks ≤ time ∧ rotationTime ∣ time} boundary ∧
        ∃ start ∈ passages rotationTime sectorsPerTrack newSector.val
          bufferInit, start + rotationTime ≤ boundary := by
  have least : IsLeast {time | totalTicks ≤ time ∧ rotationTime ∣ time}
      (arrival lastSector newSector totalTicks) := by
    have rounded := isLeast_roundUp rotationTime_pos totalTicks
    unfold arrival
    rwa [noSeek, add_zero]
  rw [trackBufferApplies_iff nonneg fits divides earlier ageFits noSeek,
    sectorDelay, ← exists_passage_iff rotationTime_pos (by decide) _ divides]
  constructor
  · intro passed
    exact ⟨_, least, passed⟩
  · rintro ⟨boundary, isLeast, passed⟩
    rwa [isLeast.unique least] at passed

theorem updateLast_bufferInit : (updateLast ⟨lastSector.val, bufferInit⟩ totalTicks
        newSector.val).bufferInit =
      if seekTicks lastSector newSector ≠ 0 then
        arrival lastSector newSector totalTicks
      else bufferInit := by
  have after : timeAfter ⟨lastSector.val, bufferInit⟩ totalTicks
      newSector.val = _ := timeAfter_eq nonneg fits
  simp only [timeAfter, timeToSeek_eq nonneg fits] at after
  simp only [updateLast, timeToSeek_eq nonneg fits, after]

theorem arrival_le_done {writing : Bool} (moves : seekTicks lastSector newSector ≠ 0) :
    arrival lastSector newSector totalTicks ≤
      totalTicks + computeLatency ⟨lastSector.val, bufferInit⟩ totalTicks
        newSector.val writing := by
  have unserved : trackBufferApplies ⟨lastSector.val, bufferInit⟩
      totalTicks newSector.val writing = false := by
    simp [trackBufferApplies, timeToSeek_eq nonneg fits, moves]
  have time : rotationTime = 500 := rfl
  have wait := sectorDelay_nonneg newSector (arrival lastSector newSector totalTicks)
  unfold computeLatency
  rw [unserved, if_neg Bool.false_ne_true, unbufferedLatency_eq nonneg fits, time]
  omega

end

/-! ## The latency of a request -/

/-- The latency of a request which comes at `totalTicks`, in terms of the
platter.  Without the track buffer the transfer takes the last sector time of
the latency, and starts when the sector first comes under the head after the
seek.  The track buffer serves a read on the current track exactly when the
sector has passed under the head since the buffer was started, and is never
slower. -/
theorem computeLatency_passage (lastSector newSector : SectorIndex)
    (totalTicks bufferInit : Int) (writing : Bool)
    (nonneg : 0 ≤ totalTicks) (divides : rotationTime ∣ bufferInit)
    (earlier : bufferInit ≤ totalTicks)
    (fits : InRange (arrival lastSector newSector totalTicks))
    (ageFits : writing = false → seekTicks lastSector newSector = 0 →
      InRange (arrival lastSector newSector totalTicks - bufferInit)) :
    let head : DiskHead := ⟨lastSector.val, bufferInit⟩
    let latency := head.computeLatency totalTicks newSector.val writing
    let applies :=
      head.trackBufferApplies totalTicks newSector.val writing
    rotationTime ≤ latency ∧
    (applies = false →
      rotationTime ∣ totalTicks + latency ∧
      (∀ time, totalTicks + latency - rotationTime ≤ time →
        time < totalTicks + latency →
        underHead rotationTime sectorsPerTrack time =
          newSector.val % sectorsPerTrack) ∧
      IsLeast (passages rotationTime sectorsPerTrack newSector.val
          (totalTicks + seekTicks lastSector newSector))
        (totalTicks + latency - rotationTime)) ∧
    (writing = false → seekTicks lastSector newSector = 0 →
      ((applies = true ↔ ∃ boundary,
        IsLeast {time | totalTicks ≤ time ∧ rotationTime ∣ time} boundary ∧
        ∃ start ∈ passages rotationTime sectorsPerTrack newSector.val
          bufferInit, start + rotationTime ≤ boundary) ∧
      (applies = true → latency ≤ head.unbufferedLatency totalTicks newSector.val))) := by
  intro head latency applies
  refine ⟨rotationTime_le_computeLatency nonneg fits, ?_, ?_⟩
  · intro unserved
    have latencyEq : latency = head.unbufferedLatency totalTicks newSector.val :=
      if_neg (ne_true_of_eq_false unserved)
    have least : IsLeast _ (totalTicks +
        head.unbufferedLatency totalTicks newSector.val - rotationTime) :=
      isLeast_unbuffered nonneg fits
    rw [latencyEq]
    refine ⟨?_, ?_, least⟩
    · have whole := dvd_add least.1.2.1 (dvd_refl rotationTime)
      rwa [sub_add_cancel] at whole
    · intro time lower upper
      exact underHead_of_passage rotationTime_pos least.1 lower (by
        rwa [sub_add_cancel])
  · rintro rfl noSeek
    refine ⟨trackBufferApplies_iff_passed nonneg fits divides earlier
      (ageFits rfl noSeek) noSeek, ?_⟩
    intro served
    have latencyEq : latency = rotationTime := if_pos served
    rw [latencyEq]
    exact rotationTime_le_unbufferedLatency nonneg fits

/-- A read of sector 40 in the middle of a sector time, with the head on
another sector of its track since the start. -/
theorem computeLatency_passage_read : rotationTime ≤ computeLatency ⟨33, 0⟩ 1250 40 false :=
  (computeLatency_passage ⟨33, by decide⟩ ⟨40, by decide⟩ 1250 0 false
    (by decide) (by decide) (by decide) (by decide) (by decide +kernel)).1

/-! ## Runs of requests -/

/-- The head, and the moment from which the disk takes the next request. -/
structure Timer where
  lastSector : SectorIndex
  bufferInit : Int
  idleSince : Int

structure Request where
  totalTicks : Int
  newSector : SectorIndex
  writing : Bool

def Timer.head (timer : Timer) : DiskHead :=
  ⟨timer.lastSector.val, timer.bufferInit⟩

/-- The disk takes one request at a time: the latency is computed and the
head updated when it arrives. -/
def RequestStep (before : Timer) (request : Request) (after : Timer) :
    Prop :=
  before.idleSince ≤ request.totalTicks ∧
  InRange (arrival before.lastSector request.newSector
    request.totalTicks) ∧
  after.lastSector = request.newSector ∧
  after.head = before.head.updateLast request.totalTicks
    request.newSector.val ∧
  after.idleSince = request.totalTicks +
    before.head.computeLatency request.totalTicks request.newSector.val request.writing

/-- The track buffer was started at a sector boundary, before the disk
became idle. -/
structure Timer.Buffered (timer : Timer) : Prop where
  nonneg : 0 ≤ timer.bufferInit
  divides : rotationTime ∣ timer.bufferInit
  earlier : timer.bufferInit ≤ timer.idleSince

theorem RequestStep.buffered {before after : Timer} {request : Request}
    (step : RequestStep before request after)
    (buffered : before.Buffered) : after.Buffered := by
  obtain ⟨idle, fits, -, moved, done⟩ := step
  have ticks : 0 ≤ request.totalTicks :=
    (buffered.nonneg.trans buffered.earlier).trans idle
  have started : after.bufferInit = _ :=
    (congrArg DiskHead.bufferInit moved).trans (updateLast_bufferInit ticks fits)
  by_cases moves : seekTicks before.lastSector request.newSector ≠ 0
  · rw [if_pos moves] at started
    have later := seek_le_arrival before.lastSector request.newSector request.totalTicks
    have seekNonneg :=
      seekTicks_nonneg before.lastSector request.newSector
    refine ⟨?_, ?_, ?_⟩
    · omega
    · rw [started]
      exact dvd_arrival _ _ _
    · rw [started, done]
      exact arrival_le_done ticks fits moves
  · rw [if_neg moves] at started
    have latency : 500 ≤ before.head.computeLatency request.totalTicks
        request.newSector.val request.writing :=
      rotationTime_le_computeLatency ticks fits
    refine ⟨?_, ?_, ?_⟩
    · rw [started]
      exact buffered.nonneg
    · rw [started]
      exact buffered.divides
    · rw [started, done]
      have earlier := buffered.earlier.trans idle
      omega

/-- The disk as `Disk::Disk` leaves it. -/
def Timer.initial : Timer := ⟨⟨0, Nat.succ_pos 1023⟩, 0, 0⟩

/-- The sector of the last request, and since when the head is on its track. -/
@[ext]
structure HeadTrack where
  sector : SectorIndex
  since : Int

/-- The head comes to another track at the first boundary between sectors
after the seek. -/
def HeadTrack.follow (track : HeadTrack) (request : Request) : HeadTrack where
  sector := request.newSector
  since :=
    if seekTicks track.sector request.newSector = 0 then track.since
    else arrival track.sector request.newSector request.totalTicks

/-- Where some requests leave the head. -/
def headTrack (requests : List Request) : HeadTrack :=
  requests.foldl HeadTrack.follow ⟨⟨0, Nat.succ_pos 1023⟩, 0⟩

def Timer.track (timer : Timer) : HeadTrack :=
  ⟨timer.lastSector, timer.bufferInit⟩

theorem RequestStep.track {before after : Timer} {request : Request}
    (step : RequestStep before request after) (buffered : before.Buffered) :
    after.track = before.track.follow request := by
  obtain ⟨idle, fits, sector, moved, -⟩ := step
  have ticks : 0 ≤ request.totalTicks :=
    (buffered.nonneg.trans buffered.earlier).trans idle
  have started : after.bufferInit = _ :=
    (congrArg DiskHead.bufferInit moved).trans (updateLast_bufferInit ticks fits)
  exact HeadTrack.ext sector (started.trans (ite_not ..))

/-- Whatever the requests, the conditions on the track buffer hold when the
next one arrives, and it was started when the head came to its track. -/
theorem run_buffered {requests : List Request} {finish : Timer}
    (run : Run RequestStep Timer.initial requests finish) :
    finish.Buffered ∧ finish.track = headTrack requests := by
  refine run.history (fun requests timer => timer.Buffered ∧ timer.track = headTrack requests)
    ⟨⟨le_refl _, dvd_zero _, le_refl _⟩, rfl⟩ ?_
  rintro past before request after ⟨buffered, tracked⟩ step
  refine ⟨step.buffered buffered, ?_⟩
  rw [headTrack, List.foldl_append, ← headTrack, ← tracked]
  exact step.track buffered

/-- A read on the track of the head, of a sector which has passed under the
head since it came to the track. -/
def HeadTrack.Passed (track : HeadTrack) (request : Request) : Prop :=
  request.writing = false ∧ seekTicks track.sector request.newSector = 0 ∧
    ∃ boundary, IsLeast {time | request.totalTicks ≤ time ∧ rotationTime ∣ time} boundary ∧
      ∃ start ∈ passages rotationTime sectorsPerTrack request.newSector.val track.since,
        start + rotationTime ≤ boundary

/-- A sector which has passed is served from the track buffer in the time of
one transfer; any other request ends when its sector has passed for the first
time after the seek. -/
def HeadTrack.OnTime (track : HeadTrack) (request : Request) (done : Int) : Prop :=
  (track.Passed request ∧ done = request.totalTicks + rotationTime) ∨
    (¬track.Passed request ∧ IsLeast (passages rotationTime sectorsPerTrack request.newSector.val
        (request.totalTicks + seekTicks track.sector request.newSector))
      (done - rotationTime))

/-- The requests of every run end when the platter says, and the code keeps
in `bufferInit` when the head came to its track. -/
theorem run_latency {requests : List Request} {before after : Timer} {request : Request}
    (run : Run RequestStep Timer.initial requests before)
    (step : RequestStep before request after) :
    before.Buffered ∧ before.track = headTrack requests ∧
      (headTrack requests).OnTime request after.idleSince := by
  obtain ⟨buffered, tracked⟩ := run_buffered run
  refine ⟨buffered, tracked, ?_⟩
  rw [← tracked]
  obtain ⟨idle, fits, -, -, done⟩ := step
  have nonneg := buffered.nonneg
  have earlier := buffered.earlier.trans idle
  have ticks := nonneg.trans earlier
  have later := seek_le_arrival before.lastSector request.newSector request.totalTicks
  have seek := seekTicks_nonneg before.lastSector request.newSector
  have ageFits : InRange (arrival before.lastSector request.newSector request.totalTicks -
      before.bufferInit) := by
    unfold InRange at fits ⊢
    omega
  have applies : before.head.trackBufferApplies request.totalTicks request.newSector.val
      request.writing = true ↔ before.track.Passed request := by
    unfold HeadTrack.Passed Timer.track Timer.head
    by_cases still : request.writing = false ∧ seekTicks before.lastSector request.newSector = 0
    · rw [still.1,
        trackBufferApplies_iff_passed ticks fits buffered.divides earlier ageFits still.2]
      simp only [still.2, true_and]
    · refine iff_of_false (fun served => still ?_) fun passed => still ⟨passed.1, passed.2.1⟩
      simp only [trackBufferApplies, timeToSeek_eq ticks fits, Bool.and_eq_true,
        decide_eq_true_eq] at served
      exact served.1
  by_cases passed : before.track.Passed request
  · refine .inl ⟨passed, ?_⟩
    rw [done, computeLatency, if_pos (applies.mpr passed)]
  · refine .inr ⟨passed, ?_⟩
    rw [done, computeLatency, if_neg (mt applies.mp passed)]
    exact isLeast_unbuffered ticks fits

/-- After a read of sector 40 of another track and a write on this track, the
track buffer serves a read of sector 33. -/
theorem run_latency_buffered_read : ∃ before after, Run RequestStep Timer.initial
      [⟨0, ⟨40, by decide⟩, false⟩, ⟨5000, ⟨35, by decide⟩, true⟩] before ∧
    before.head.trackBufferApplies 20000 33 false = true ∧
    RequestStep before ⟨20000, ⟨33, by decide⟩, false⟩ after ∧ after.idleSince = 20500 ∧
    (headTrack [⟨0, ⟨40, by decide⟩, false⟩, ⟨5000, ⟨35, by decide⟩, true⟩]).since = 500 ∧
    (headTrack [⟨0, ⟨40, by decide⟩, false⟩, ⟨5000, ⟨35, by decide⟩, true⟩]).OnTime
      ⟨20000, ⟨33, by decide⟩, false⟩ after.idleSince := by
  have first : RequestStep Timer.initial ⟨0, ⟨40, by decide⟩, false⟩ ⟨⟨40, by decide⟩, 500, 4500⟩ :=
    ⟨le_refl _, by decide, rfl, by decide +kernel, by decide +kernel⟩
  have second : RequestStep ⟨⟨40, by decide⟩, 500, 4500⟩ ⟨5000, ⟨35, by decide⟩, true⟩
      ⟨⟨35, by decide⟩, 500, 18000⟩ :=
    ⟨by decide, by decide, rfl, by decide +kernel, by decide +kernel⟩
  have third : RequestStep ⟨⟨35, by decide⟩, 500, 18000⟩ ⟨20000, ⟨33, by decide⟩, false⟩
      ⟨⟨33, by decide⟩, 500, 20500⟩ :=
    ⟨by decide, by decide, rfl, by decide +kernel, by decide +kernel⟩
  have run := (Run.single first).snoc second
  exact ⟨_, _, run, by decide +kernel, third, rfl, by decide +kernel, (run_latency run third).2.2⟩

end DiskHead

end Nachos
