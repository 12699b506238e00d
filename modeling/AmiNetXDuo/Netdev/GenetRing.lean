import AmiNetXDuo.Lib.Interleaving
import Mathlib.Logic.Function.Basic

/-!
# The receive ring of the GENET

The chip completes buffers in ring order and counts them in a 16-bit producer index; the driver
walks them, and the consumer index it writes back says which buffers the chip may fill again. A
pass reads the producer index, runs one cache operation over what is new, and consumes frame by
frame until it is through, a reader is behind or its budget is spent. The chip goes on meanwhile.

The state also remembers what the chip has completed, what the driver has consumed and read, and
which bytes have had a cache operation since the chip last completed their buffer.

## Main definitions

* `genetRingFresh`, `genetRingSlot`, `genetRingRoom` : the counter arithmetic of `genet_ring.h`.
* `geCache` : which bytes a cache operation reaches.
* `geDeliver`, `geConsider`, `geFrame` : one frame of a pass.
* `genetStep` : the chip, the passes of `ge_rxintr` and the blanks of `genet_tick`.
-/

namespace AmiNetXDuo.Netdev

/-- `GE_RX_RING`. -/
def geRxRing : ℕ := 128

/-- `GE_RX_PASS_MAX`. -/
def geRxPassMax : ℕ := 32

/-- `GE_BUFSZ`. -/
def geBufsz : ℕ := 2048

/-- `GE_RX_HEAD`: the status block and the shift in front of the frame. -/
def geRxHead : ℕ := 66

/-- `NETDEV_HDR_LEN`. -/
def netdevHdrLen : ℕ := 14

/-- `GE_HOLD_BLANKS`. -/
def geHoldBlanks : ℕ := 5

/-- `GENET_PAGE`. -/
def genetPage : ℕ := 4096

/-! ### Counter arithmetic -/

/-- `genet_ring_fresh`. -/
def genetRingFresh (total cidx clean : UInt16) : UInt16 :=
  total - (if clean - cidx > total then 0 else clean - cidx)

/-- `genet_ring_slot`. -/
def genetRingSlot (counter ring : UInt16) : UInt16 :=
  counter &&& (ring - 1)

/-- `genet_ring_room`. -/
def genetRingRoom (counter ring : UInt16) : UInt16 :=
  ring - genetRingSlot counter ring

/-- `genet_page_first`. -/
def genetPageFirst (addr : ℕ) : ℕ :=
  addr / genetPage * genetPage

/-- `genet_page_count`. -/
def genetPageCount (addr len : ℕ) : ℕ :=
  ((addr + len - 1) / genetPage * genetPage - genetPageFirst addr) / genetPage + 1

/-! ### Buffers -/

/-- What the chip leaves in a buffer: the status word in front of the frame and the frame's first
byte. `seq` tells which completion it was. -/
structure RxBuffer where
  seq : ℕ
  status : UInt32
  first : UInt8

/-- What became of a consumed buffer. -/
inductive RxOutcome
  /-- Copied into the slot a reader offered. -/
  | claimed
  /-- Handed up where it lies. -/
  | handedUp
  /-- Handed up although its reader is behind, because the head was held for too long. -/
  | letGo
  /-- Counted in `rx_errors`. -/
  | error
  deriving DecidableEq, Repr

/-- A buffer the driver is done with. -/
structure RxConsumed where
  seq : ℕ
  outcome : RxOutcome
  deriving DecidableEq

/-- A buffer the driver has looked into, and whether each of its bytes had had its cache
operation. -/
structure RxRead where
  seq : ℕ
  coherent : Bool

/-- Where the driver is in a pass. -/
inductive GenetPass
  | idle
  /-- The producer index is read. -/
  | started (pidx total : UInt16)
  /-- In the loop over the frames. -/
  | walking (total n : UInt16)
  /-- Before the consumer index is written back. -/
  | ending
  deriving DecidableEq

/-- The chip's registers, the driver's variables and what has happened so far. -/
structure GenetRx where
  prodIndex : UInt16
  consIndex : UInt16
  rxCidx : UInt16
  rxClean : UInt16
  rxBehind : Bool
  rxHeld : Bool
  dropHeld : Bool
  heldBlanks : ℕ
  pageops : Bool
  rxErrors : ℕ
  rxPackets : ℕ
  pass : GenetPass
  /-- The buffers by their slot. -/
  buf : ℕ → RxBuffer
  /-- The byte at an offset of `rx_buf` had a cache operation since its buffer was completed. -/
  current : ℕ → Bool
  /-- How many buffers the chip has completed. -/
  completed : ℕ
  /-- How many buffers the chip has been handed back. -/
  handedBack : ℕ
  /-- What was consumed, the oldest first. -/
  consumed : List RxConsumed
  /-- What was looked into. -/
  reads : List RxRead
  /-- How many blanks found frames left behind. -/
  behindBlanks : ℕ
  /-- The frames that passes have left at the head for their readers. -/
  heldSeqs : List ℕ
  /-- The last blank that ran out the clock on the head found a frame held there. -/
  ranOutHeld : Bool

/-- `ge_cache` on a range of `rx_buf`, which is page-aligned: whole pages when the page operation
is used. -/
def geCache (g : GenetRx) (addr len : ℕ) : GenetRx :=
  { g with current := fun b ↦
      if g.pageops then
        if genetPageFirst addr ≤ b ∧ b < genetPageFirst addr + genetPageCount addr len * genetPage
        then true else g.current b
      else if addr ≤ b ∧ b < addr + len then true else g.current b }

/-! ### The chip -/

/-- The chip completes the next buffer, unless all it was handed back are full. -/
def chipComplete (g : GenetRx) (status : UInt32) (first : UInt8) : Option GenetRx :=
  if (g.prodIndex - g.consIndex).toNat < geRxRing then
    let slot := (genetRingSlot g.prodIndex 128).toNat
    some { g with
      prodIndex := g.prodIndex + 1
      buf := Function.update g.buf slot ⟨g.completed, status, first⟩
      current := fun b ↦ if b / geBufsz = slot then false else g.current b
      completed := g.completed + 1 }
  else none

/-! ### A pass -/

/-- The start of `ge_rxintr`. -/
def rxBegin (g : GenetRx) : GenetRx :=
  let total := g.prodIndex - g.rxCidx
  if total = 0 then { g with rxHeld := false }
  else { g with pass := .started g.prodIndex (if total > 128 then 128 else total) }

/-- The cache operations of a pass over the frames that are new: one range, or two at the end of
the ring. -/
def rxCleanFresh (g : GenetRx) (fresh : UInt16) : GenetRx :=
  let first := (genetRingSlot g.rxClean 128).toNat
  let room := genetRingRoom g.rxClean 128
  if fresh = 0 then g
  else if fresh ≤ room then geCache g (first * geBufsz) (fresh.toNat * geBufsz)
  else geCache (geCache g (first * geBufsz) (room.toNat * geBufsz)) 0
    ((fresh - room).toNat * geBufsz)

/-- The part of `ge_rxintr` between the producer index and the loop. -/
def rxPrepare (g : GenetRx) (pidx total : UInt16) : GenetRx :=
  { rxCleanFresh g (genetRingFresh total g.rxCidx g.rxClean) with
    rxClean := pidx
    rxBehind := false
    rxHeld := false
    pass := .walking total 0 }

/-- What `rx_claim` answers. -/
inductive ClaimReply
  | slot
  | behind
  | none
  deriving DecidableEq, Repr

/-- `ge_deliver`: nothing when the frame is left in the ring. -/
def geDeliver (dropHeld : Bool) (first : UInt8) (reply : ClaimReply) : Option RxOutcome :=
  match reply with
  | .slot => some .claimed
  | .none => some .handedUp
  | .behind =>
    if first &&& 1 = 0 then if dropHeld then some .letGo else none
    else some .handedUp

/-- The status word reports an error, an unfinished frame or a length that cannot be. -/
def statusBad (status : UInt32) : Bool :=
  let len := ((status >>> 16) &&& 0x0FFF).toNat
  status &&& 0x1F ≠ 0 || status &&& 0x6000 ≠ 0x6000 || len < geRxHead + netdevHdrLen ||
    geBufsz < len

/-- The buffer is done with: its descriptor is armed again and the consumer counter moves. -/
def rxConsume (g : GenetRx) (total n : UInt16) (b : RxBuffer) (outcome : RxOutcome) : GenetRx :=
  { g with
    rxCidx := g.rxCidx + 1
    pass := .walking total (n + 1)
    consumed := g.consumed ++ [⟨b.seq, outcome⟩] }

/-- The slot the driver looks at. -/
def rxSlot (g : GenetRx) : ℕ := (genetRingSlot g.rxCidx 128).toNat

/-- Every byte of a range has had its cache operation. -/
@[irreducible]
def rangeCurrent (current : ℕ → Bool) (addr len : ℕ) : Bool :=
  (List.range len).all fun i ↦ current (addr + i)

/-- The driver looks into a buffer. -/
def rxLook (g : GenetRx) : GenetRx :=
  { g with reads := ⟨(g.buf (rxSlot g)).seq, rangeCurrent g.current (rxSlot g * geBufsz) geBufsz⟩ ::
      g.reads }

/-- What the loop of `ge_rxintr` does with a buffer. -/
def geConsider (g : GenetRx) (total n : UInt16) (b : RxBuffer) (reply : ClaimReply) : GenetRx :=
  if statusBad b.status then rxConsume { g with rxErrors := g.rxErrors + 1 } total n b .error
  else match geDeliver g.dropHeld b.first reply with
    | none =>
      { g with
        rxBehind := true
        rxHeld := true
        pass := .ending
        heldSeqs := b.seq :: g.heldSeqs }
    | some outcome =>
      rxConsume { g with dropHeld := false, rxPackets := g.rxPackets + 1 } total n b outcome

/-- One turn of the loop of `ge_rxintr`. -/
def geFrame (g : GenetRx) (total n : UInt16) (reply : ClaimReply) : GenetRx :=
  if n ≥ total then { g with pass := .ending }
  else if n.toNat ≥ geRxPassMax then { g with rxBehind := true, pass := .ending }
  else geConsider (rxLook g) total n (g.buf (rxSlot g)) reply

/-- The end of `ge_rxintr`. -/
def rxEnd (g : GenetRx) : GenetRx :=
  { g with
    consIndex := g.rxCidx
    handedBack := g.handedBack + (g.rxCidx - g.consIndex).toNat
    pass := .idle }

/-- The receive part of `genet_tick`, up to the pass it starts. -/
def genetTick (g : GenetRx) : GenetRx :=
  if g.rxBehind then
    let held := g.heldBlanks + 1
    rxBegin { g with
      heldBlanks := if held ≥ geHoldBlanks then 0 else held
      dropHeld := if held ≥ geHoldBlanks then true else g.dropHeld
      behindBlanks := g.behindBlanks + 1
      ranOutHeld := if held ≥ geHoldBlanks then g.rxHeld else g.ranOutHeld }
  else { g with heldBlanks := 0 }

/-! ### Runs -/

/-- What can happen next: the chip completes a buffer, an interrupt or a poll starts a pass, a
blank comes, or a pass goes on. -/
inductive GenetEvent
  | complete (status : UInt32) (first : UInt8)
  | rxintr
  | blank
  | prepare
  | frame (reply : ClaimReply)
  | finish

/-- One event. Passes do not overlap: they run with interrupts off, and `nu_InIsr` keeps the three
that start them apart. -/
def genetStep (g : GenetRx) : GenetEvent → Option GenetRx
  | .complete status first => chipComplete g status first
  | .rxintr => if g.pass = .idle then some (rxBegin g) else none
  | .blank => if g.pass = .idle then some (genetTick g) else none
  | .prepare =>
    match g.pass with
    | .started pidx total => some (rxPrepare g pidx total)
    | _ => none
  | .frame reply =>
    match g.pass with
    | .walking total n => some (geFrame g total n reply)
    | _ => none
  | .finish => if g.pass = .ending then some (rxEnd g) else none

/-- **What an event does**, where it can happen. -/
inductive GenetMoves (g : GenetRx) : GenetEvent → GenetRx → Prop
  | complete {status : UInt32} {first : UInt8} {g' : GenetRx}
      (h : chipComplete g status first = some g') : GenetMoves g (.complete status first) g'
  | rxintr (hidle : g.pass = .idle) : GenetMoves g .rxintr (rxBegin g)
  | blank (hidle : g.pass = .idle) : GenetMoves g .blank (genetTick g)
  | prepare {pidx total : UInt16} (hpass : g.pass = .started pidx total) :
      GenetMoves g .prepare (rxPrepare g pidx total)
  | frame {total n : UInt16} {reply : ClaimReply} (hpass : g.pass = .walking total n) :
      GenetMoves g (.frame reply) (geFrame g total n reply)
  | finish (hpass : g.pass = .ending) : GenetMoves g .finish (rxEnd g)

theorem genetStep_moves {g g' : GenetRx} {e : GenetEvent} (h : genetStep g e = some g') :
    GenetMoves g e g' := by
  cases e with
  | complete status first => exact .complete h
  | rxintr =>
    rw [genetStep] at h
    split_ifs at h with hidle
    exact Option.some.inj h ▸ .rxintr hidle
  | blank =>
    rw [genetStep] at h
    split_ifs at h with hidle
    exact Option.some.inj h ▸ .blank hidle
  | prepare =>
    rw [genetStep] at h
    split at h
    · next hpass => exact Option.some.inj h ▸ .prepare hpass
    · cases h
  | frame reply =>
    rw [genetStep] at h
    split at h
    · next hpass => exact Option.some.inj h ▸ .frame hpass
    · cases h
  | finish =>
    rw [genetStep] at h
    split_ifs at h with hpass
    exact Option.some.inj h ▸ .finish hpass

/-- What `ge_init_rings` makes of a core just allocated: the counters are zero and nothing has been
completed, whatever the buffers and the caches hold. `held_blanks` and `drop_held`, which it does
not touch, are clear from the allocation. -/
def GenetRx.Initial (g : GenetRx) : Prop :=
  g.prodIndex = 0 ∧ g.consIndex = 0 ∧ g.rxCidx = 0 ∧ g.rxClean = 0 ∧ g.rxBehind = false ∧
    g.pass = .idle ∧ g.completed = 0 ∧ g.handedBack = 0 ∧ g.consumed = [] ∧ g.reads = [] ∧
    g.dropHeld = false ∧ g.heldBlanks = 0 ∧ g.rxErrors = 0 ∧ g.rxHeld = false ∧ g.heldSeqs = []

end AmiNetXDuo.Netdev
