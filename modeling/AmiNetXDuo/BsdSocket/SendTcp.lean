import AmiNetXDuo.Basic

/-!
# The run of a TCP send

`bsd_send_tcp_run()` of `src/bsdsocket/transfer.c` cuts what a `send()` gathers from its iovec list
into packets, of one segment or of a whole block, and hands them to NetX one after the other. A
packet may be filled only in part, may be taken only in part, and may be offered again until the
wait for room is over.

What the packet pool, NetX, the clock and the break signals answer is a `SendRound` for each turn of
the loop. NetX takes a packet whole when it answers `NX_SUCCESS`, and otherwise leaves in it what it
did not take.

## Main definitions

* `bsdIovChunk`, `bsdIovAdvance`, `bsdPacketAppendIov` : the cursor over the list, and the filling
  of a packet.
* `bsdSendGsoBytes` : the size of a block.
* `bsdSendTcpRun` : the run, with the bytes that NetX took.

## Main results

* `bsdPacketAppendIov_filled` : a packet holds the bytes that the cursor has passed.
* `bsdWaitEvent_took` : a packet that is offered any number of times is taken from its front.
* `bsdSendTcpRun_accounts` : the value that a run returns counts what NetX took of the list.
-/

namespace AmiNetXDuo.BsdSocket

/-! ### The cursor over an iovec list -/

/-- `BsdIovCursor`: the entries from `ic_Index` on, and the offset into the first of them. -/
structure BsdIovCursor where
  vec : List (List UByte)
  offset : Nat

/-- `bsd_iov_init()`. -/
def bsdIovInit (iov : List (List UByte)) : BsdIovCursor := ⟨iov, 0⟩

/-- What is left behind the cursor. -/
def BsdIovCursor.rest (cur : BsdIovCursor) : List UByte :=
  (cur.vec.headD []).drop cur.offset ++ cur.vec.tail.flatten

/-- The loop of `bsd_iov_chunk()`. -/
def iovChunkLoop : List (List UByte) → Nat → BsdIovCursor × List UByte
  | [], offset => (⟨[], offset⟩, [])
  | v :: vs, offset =>
    if offset < v.length then (⟨v :: vs, offset⟩, v.drop offset) else iovChunkLoop vs 0

/-- `bsd_iov_chunk()`: the contiguous run at the cursor. -/
def bsdIovChunk (cur : BsdIovCursor) : BsdIovCursor × List UByte :=
  iovChunkLoop cur.vec cur.offset

/-- The loop of `bsd_iov_advance()`. -/
def iovAdvanceLoop : List (List UByte) → Nat → Nat → BsdIovCursor
  | [], offset, _ => ⟨[], offset⟩
  | v :: vs, offset, bytes =>
    if bytes = 0 then ⟨v :: vs, offset⟩
    else
      let avail := if offset < v.length then v.length - offset else 0
      if avail = 0 then iovAdvanceLoop vs 0 bytes
      else if bytes < avail then ⟨v :: vs, offset + bytes⟩
      else iovAdvanceLoop vs 0 (bytes - avail)

/-- `bsd_iov_advance()`. -/
def bsdIovAdvance (cur : BsdIovCursor) (bytes : Nat) : BsdIovCursor :=
  iovAdvanceLoop cur.vec cur.offset bytes

theorem rest_zero (vec : List (List UByte)) : (BsdIovCursor.mk vec 0).rest = vec.flatten := by
  cases vec with
  | nil => rfl
  | cons v vs => rw [BsdIovCursor.rest, List.headD_cons, List.drop_zero, List.tail_cons,
      List.flatten_cons]

/-- The chunk at the cursor is what comes first, and there is none only behind the last byte. -/
theorem iovChunkLoop_spec (vec : List (List UByte)) (offset : Nat) :
    (iovChunkLoop vec offset).1.rest = (BsdIovCursor.mk vec offset).rest ∧
      (iovChunkLoop vec offset).2 <+: (BsdIovCursor.mk vec offset).rest ∧
      ((iovChunkLoop vec offset).2 = [] → (BsdIovCursor.mk vec offset).rest = []) := by
  induction vec generalizing offset with
  | nil => simp [iovChunkLoop, BsdIovCursor.rest]
  | cons v vs ih =>
    unfold iovChunkLoop
    split_ifs with h
    · refine ⟨rfl, List.prefix_append _ _, fun hnil ↦ ?_⟩
      rw [List.drop_eq_nil_iff] at hnil
      omega
    · have hskip : (BsdIovCursor.mk (v :: vs) offset).rest = (BsdIovCursor.mk vs 0).rest := by
        rw [rest_zero, BsdIovCursor.rest, List.headD_cons, List.tail_cons,
          List.drop_eq_nil_of_le (Nat.not_lt.mp h), List.nil_append]
      rw [hskip]
      exact ih 0

/-- The cursor passes as many bytes as it is told to. -/
theorem iovAdvanceLoop_rest (vec : List (List UByte)) (offset bytes : Nat) :
    (iovAdvanceLoop vec offset bytes).rest = (BsdIovCursor.mk vec offset).rest.drop bytes := by
  induction vec generalizing offset bytes with
  | nil => simp [iovAdvanceLoop, BsdIovCursor.rest]
  | cons v vs ih =>
    have hsplit : (BsdIovCursor.mk (v :: vs) offset).rest = v.drop offset ++ vs.flatten := rfl
    rw [hsplit, iovAdvanceLoop]
    by_cases hzero : bytes = 0
    · rw [if_pos hzero, hzero, List.drop_zero, hsplit]
    rw [if_neg hzero]
    by_cases hlt : offset < v.length
    · rw [if_pos hlt, if_neg (by omega)]
      by_cases hless : bytes < v.length - offset
      · rw [if_pos hless, List.drop_append_of_le_length (by rw [List.length_drop]; omega),
          List.drop_drop]
        rfl
      · have hpassed : (v.drop offset).drop bytes = [] :=
          List.drop_eq_nil_of_le (by rw [List.length_drop]; omega)
        rw [if_neg hless, ih, rest_zero, List.drop_append, List.length_drop, hpassed,
          List.nil_append]
    · rw [if_neg hlt, if_pos rfl, ih, rest_zero, List.drop_eq_nil_of_le (Nat.not_lt.mp hlt),
        List.nil_append]

/-! ### Filling a packet -/

/-- The answers of NetX that the run tells apart. -/
inductive SendStatus
  | success
  | noPacket
  | txQueueDepth
  | windowOverflow
  | waitAborted
  | poolDeleted
  | notConnected
  | notEnabled
  | other (code : Nat)
deriving DecidableEq

/-- What `bsd_packet_append_iov()` leaves: the number it returns, the cursor, the packet and
`*why`. -/
structure Appended where
  filled : Int
  cur : BsdIovCursor
  packet : List UByte
  why : SendStatus

/-- The loop of `bsd_packet_append_iov()`, at the chunk with the number `i`. A chunk is appended
whole or not at all. -/
def appendLoop (verdict : Nat → SendStatus) (want : Nat) (cur : BsdIovCursor) (done i : Nat)
    (packet : List UByte) (why : SendStatus) : Appended :=
  if _hdone : done < want then
    let at' := bsdIovChunk cur
    if _hchunk : at'.2 = [] then ⟨done, at'.1, packet, why⟩
    else
      let chunk := at'.2.take (want - done)
      if verdict i = .success then
        appendLoop verdict want (bsdIovAdvance at'.1 chunk.length) (done + chunk.length) (i + 1)
          (packet ++ chunk) why
      else ⟨if 0 < done then done else -1, at'.1, packet, verdict i⟩
  else ⟨done, cur, packet, why⟩
termination_by want - done
decreasing_by
  have hpos : 0 < (bsdIovChunk cur).2.length := List.length_pos_iff.mpr _hchunk
  rw [List.length_take]
  omega

/-- `bsd_packet_append_iov()` on an empty packet. -/
def bsdPacketAppendIov (verdict : Nat → SendStatus) (want : Nat) (cur : BsdIovCursor)
    (why : SendStatus) : Appended :=
  appendLoop verdict want cur 0 0 [] why

/-- A packet being filled: what it holds and what is behind the cursor is what was there, and the
number returned counts what it holds. -/
structure Appended.Filled (a : Appended) (gathered : List UByte) (want : Nat) : Prop where
  bytes : a.packet ++ a.cur.rest = gathered
  length_le : a.packet.length ≤ want
  count : 0 < a.filled → a.filled = a.packet.length

theorem appendLoop_filled (verdict : Nat → SendStatus) (want : Nat) (cur : BsdIovCursor)
    (done i : Nat) (packet : List UByte) (why : SendStatus) (hdone : done ≤ want)
    (hpacket : packet.length = done) :
    (appendLoop verdict want cur done i packet why).Filled (packet ++ cur.rest) want := by
  have hcount {k : Nat} {p : List UByte} (h : p.length = k) : (k : Int) = p.length := by rw [h]
  fun_induction appendLoop verdict want cur done i packet why with
  | case1 cur done i packet hlt at' hnil =>
    have hrest := (iovChunkLoop_spec cur.vec cur.offset).1
    exact ⟨congrArg (packet ++ ·) hrest, hpacket ▸ hdone, fun _ ↦ hcount hpacket⟩
  | case2 cur done i packet hlt at' hchunk chunk hok ih =>
    obtain ⟨hrest, hpre, -⟩ := iovChunkLoop_spec cur.vec cur.offset
    have hle : chunk.length ≤ want - done := List.length_take_le _ _
    have hfront : chunk <+: cur.rest := (List.take_prefix _ _).trans hpre
    have hmoved : (bsdIovAdvance at'.1 chunk.length).rest = cur.rest.drop chunk.length :=
      (iovAdvanceLoop_rest _ _ _).trans (congrArg (List.drop chunk.length) hrest)
    have hfilled := ih (by omega) (by rw [List.length_append, hpacket])
    rw [hmoved, List.append_assoc, List.prefix_iff_eq_append.mp hfront] at hfilled
    exact hfilled
  | case3 cur done i packet hlt at' hchunk hfail =>
    have hrest := (iovChunkLoop_spec cur.vec cur.offset).1
    refine ⟨congrArg (packet ++ ·) hrest, hpacket ▸ hdone, fun hpos ↦ ?_⟩
    by_cases h : 0 < done
    · exact (if_pos h).trans (hcount hpacket)
    · have hneg : (0 : Int) < if 0 < done then (done : Int) else -1 := hpos
      rw [if_neg h] at hneg
      exact absurd hneg (by decide)
  | case4 cur done i packet hge =>
    exact ⟨rfl, hpacket ▸ hdone, fun _ ↦ hcount hpacket⟩

/-- **A filled packet** holds the next bytes of the list, and the cursor is behind them. -/
theorem bsdPacketAppendIov_filled (verdict : Nat → SendStatus) (want : Nat) (cur : BsdIovCursor)
    (why : SendStatus) : (bsdPacketAppendIov verdict want cur why).Filled cur.rest want :=
  appendLoop_filled verdict want cur 0 0 [] why (Nat.zero_le _) rfl

/-! ### Offering a packet -/

/-- How a wait in slices ends: with the answer of its last call, with the break, or without the
bracket it has to get back into. -/
inductive WaitEnd (α : Type)
  | returned (answer : α)
  | aborted
  | lost (broken : Bool)

/-- NetX's side: the bytes it has taken, and the packet that is offered to it. -/
structure Offer where
  taken : List UByte
  packet : List UByte

/-- `_nx_tcp_socket_send()`: a packet is taken whole, or as far as the answer says. -/
def Offer.send (o : Offer) (answer : SendStatus × Nat) : Offer :=
  if answer.1 = .success then ⟨o.taken ++ o.packet, []⟩
  else ⟨o.taken ++ o.packet.take answer.2, o.packet.drop answer.2⟩

/-- `bsd_wait_event()` around a send: the calls that say to wait on, by what they took, and the end
of the wait. The flag is `*aborted`. -/
def bsdWaitEvent (again : List Nat) (ended : WaitEnd (SendStatus × Nat)) (o : Offer) :
    SendStatus × Bool × Offer :=
  let o := again.foldl (fun o taken ↦ o.send (.windowOverflow, taken)) o
  match ended with
  | .returned answer => (answer.1, false, o.send answer)
  | .aborted => (.success, true, o)
  | .lost broken => (if broken then .waitAborted else .notEnabled, false, o)

/-- `bsd_send_consumed()`. -/
def bsdSendConsumed (packet : List UByte) (filled : Nat) : Nat :=
  if filled ≤ packet.length then 0 else filled - packet.length

/-- An offer that came from another: NetX has taken the front of the packet. -/
structure Offer.Took (o o' : Offer) : Prop where
  bytes : o'.taken ++ o'.packet = o.taken ++ o.packet
  front : o.taken <+: o'.taken

theorem Offer.Took.refl (o : Offer) : o.Took o := ⟨rfl, List.prefix_rfl⟩

theorem Offer.Took.trans {o o' o'' : Offer} (h : o.Took o') (h' : o'.Took o'') : o.Took o'' :=
  ⟨h'.bytes.trans h.bytes, h.front.trans h'.front⟩

theorem Offer.took_send (o : Offer) (answer : SendStatus × Nat) : o.Took (o.send answer) := by
  unfold Offer.send
  split_ifs
  · exact ⟨List.append_nil _, List.prefix_append _ _⟩
  · refine ⟨?_, List.prefix_append _ _⟩
    rw [List.append_assoc, List.take_append_drop]

/-- **A packet that is offered again and again** is taken from its front. -/
theorem bsdWaitEvent_took (again : List Nat) (ended : WaitEnd (SendStatus × Nat)) (o : Offer) :
    o.Took (bsdWaitEvent again ended o).2.2 := by
  have hagain : o.Took (again.foldl (fun o taken ↦ o.send (.windowOverflow, taken)) o) := by
    induction again generalizing o with
    | nil => exact .refl o
    | cons k again ih => exact (o.took_send _).trans (ih _)
  cases ended with
  | returned answer => exact hagain.trans (Offer.took_send _ _)
  | aborted => exact hagain
  | lost broken => exact hagain

/-- Where the wait answers `NX_SUCCESS` and was not broken off, the packet is gone. -/
theorem bsdWaitEvent_success {again : List Nat} {ended : WaitEnd (SendStatus × Nat)} {o : Offer}
    (hok : (bsdWaitEvent again ended o).1 = .success)
    (hgoes : (bsdWaitEvent again ended o).2.1 = false) :
    (bsdWaitEvent again ended o).2.2.packet = [] := by
  cases ended with
  | returned answer =>
    have hanswer : answer.1 = .success := hok
    change (Offer.send _ answer).packet = []
    rw [Offer.send, if_pos hanswer]
  | aborted => cases hgoes
  | lost broken => cases broken <;> cases hok

/-- What `bsd_send_consumed()` counts is what NetX took of the packet. -/
theorem Offer.Took.consumed {o o' : Offer} (h : o.Took o') :
    o'.taken.length = o.taken.length + bsdSendConsumed o'.packet o.packet.length := by
  have hlen := congrArg List.length h.bytes
  have hfront := h.front.length_le
  rw [List.length_append, List.length_append] at hlen
  unfold bsdSendConsumed
  split_ifs <;> omega

/-! ### The run -/

/-- What `bsd_send_gso_bytes()` reads. -/
structure GsoState where
  /-- The interface takes blocks, and the connection is an IPv4 one. -/
  capable : Bool
  mss : Nat
  maxSegs : Nat
  credit : Nat
  window : Nat
  payload : Nat
  poolTotal : Nat
  poolAvailable : Nat
  /-- `NX_TCP_GSO_PACKET` -/
  headroom : Nat

/-- `bsd_send_gso_bytes()`: the size of the next block, or 0 for one segment. -/
def bsdSendGsoBytes (g : GsoState) (left : Nat) : Nat :=
  if !g.capable then 0
  else if g.mss = 0 ∨ 0xFFFF < g.mss ∨ left ≤ g.mss then 0
  else
    let bytes := min (min (min (min (g.maxSegs * g.mss) 32768) left) g.credit) g.window
    let bytes := if bytes < left then bytes - bytes % g.mss else bytes
    if bytes ≤ g.mss then 0
    else if g.payload ≤ g.headroom then 0
    else
      let need := (bytes + g.headroom + g.payload - 1) / g.payload + 1
      let reserve := max (g.poolTotal / 8) 16
      if g.poolAvailable < need + reserve then 0 else bytes

/-- A block is no longer than what is left to send. -/
theorem bsdSendGsoBytes_le (g : GsoState) (left : Nat) : bsdSendGsoBytes g left ≤ left := by
  unfold bsdSendGsoBytes
  grind

/-- What one turn of the loop is told, in the order in which it asks: the state that sizes a block,
the wait budget and the break, the allocations, a verdict for each chunk, budget and break again,
and the answers to the packet. -/
structure SendRound where
  gso : GsoState
  budget₁ : Nat
  broken₁ : Bool
  gsoAlloc : SendStatus
  alloc : SendStatus
  allocEnd : WaitEnd SendStatus
  append : Nat → SendStatus
  budget₂ : Nat
  broken₂ : Bool
  send : SendStatus × Nat
  sendAgain : List Nat
  sendEnd : WaitEnd (SendStatus × Nat)

/-- The error codes of a send; `ofStatus` is what `bsd_errno_from_nx()` makes of a status. -/
inductive SendErrno
  | enetdown
  | enotconn
  | epipe
  | eintr
  | ewouldblock
  | enobufs
  | ofStatus (status : SendStatus)
deriving DecidableEq

/-- `bsd_wait_errno()`; `forever` says that the wait has no limit. -/
def bsdWaitErrno (forever : Bool) : SendStatus → SendErrno
  | .waitAborted => .eintr
  | .poolDeleted => .enobufs
  | .noPacket | .txQueueDepth | .windowOverflow => if forever then .enobufs else .ewouldblock
  | status => .ofStatus status

/-- The socket and the stack around it, as a send finds them. -/
structure SendSocket where
  pool : Bool
  connected : Bool
  wrshut : Bool
  nonblock : Bool
  mss : Nat
  /-- `bwb_Wait`: `none` is `NX_WAIT_FOREVER`, `some 0` is `NX_NO_WAIT`. -/
  wait : Option Nat

/-- What a run leaves: its value, the bytes that NetX took, and the two flags it may change. -/
structure SendResult where
  value : Except SendErrno Nat
  taken : List UByte
  connected : Bool
  txWait : Bool

/-- A short count, or the error if there is nothing to count. -/
def shortOr (sent : Nat) (errno : SendErrno) : Except SendErrno Nat :=
  if 0 < sent then .ok sent else .error errno

/-- `bsd_wait_sliced()` around an allocation, and `*aborted`. -/
def bsdWaitAlloc : WaitEnd SendStatus → SendStatus × Bool
  | .returned status => (status, false)
  | .aborted => (.success, true)
  | .lost broken => (if broken then .waitAborted else .notEnabled, false)

/-- The allocation of a turn: the status, whether the break ended its wait, and the bytes that the
packet is for. -/
def allocPacket (r : SendRound) (mss remaining left : Nat) : SendStatus × Bool × Nat :=
  let gso := bsdSendGsoBytes r.gso remaining
  if gso ≠ 0 ∧ r.gsoAlloc = .success then (.success, false, gso)
  else
    let chunk := min remaining mss
    if r.alloc = .noPacket ∧ left ≠ 0 then
      let waited := bsdWaitAlloc r.allocEnd
      (waited.1, waited.2, chunk)
    else (r.alloc, false, chunk)

theorem allocPacket_le (r : SendRound) (mss remaining left : Nat) :
    (allocPacket r mss remaining left).2.2 ≤ remaining := by
  simp only [allocPacket]
  split_ifs
  · exact bsdSendGsoBytes_le _ _
  · exact Nat.min_le_left _ _
  · exact Nat.min_le_left _ _

/-- The sending of a packet in a turn: the status, whether the break ended the wait, and what NetX
has taken. -/
def sendPacket (r : SendRound) (left : Nat) (o : Offer) : SendStatus × Bool × Offer :=
  let first := o.send r.send
  if (r.send.1 = .windowOverflow ∨ r.send.1 = .txQueueDepth ∨ r.send.1 = .noPacket) ∧
      left ≠ 0 then
    bsdWaitEvent r.sendAgain r.sendEnd first
  else (r.send.1, false, first)

/-- The loop of `bsd_send_tcp_run()`, at its turn `i`. -/
def sendLoop (sock : SendSocket) (mss : Nat) (rounds : Nat → SendRound) (len : Int) (i : Nat)
    (cur : BsdIovCursor) (sent : Nat) (noWait : Bool) (why : SendStatus) (taken : List UByte) :
    SendResult :=
  let forever := !noWait && sock.wait == none
  -- What stands behind the loop, reached with `break` too.
  let behind (why : SendStatus) : SendResult :=
    ⟨if sent = 0 ∧ 0 < len then .error (bsdWaitErrno forever why) else .ok sent, taken, true, false⟩
  if _hlen : (sent : Int) < len then
    let r := rounds i
    let left₁ := if noWait then 0 else r.budget₁
    if left₁ ≠ 0 ∧ r.broken₁ then ⟨shortOr sent .eintr, taken, true, false⟩
    else
      let packet := allocPacket r mss (len - sent).toNat left₁
      if packet.2.1 then ⟨shortOr sent .eintr, taken, true, false⟩
      else if packet.1 ≠ .success then behind packet.1
      else
        let filled := bsdPacketAppendIov r.append packet.2.2 cur why
        if _hfilled : filled.filled ≤ 0 then
          if filled.why = .waitAborted then ⟨shortOr sent .eintr, taken, true, false⟩
          else behind filled.why
        else
          let left₂ := if noWait then 0 else r.budget₂
          if left₂ ≠ 0 ∧ r.broken₂ then ⟨shortOr sent .eintr, taken, true, false⟩
          else
            let done := sendPacket r left₂ ⟨taken, filled.packet⟩
            let consumed := bsdSendConsumed done.2.2.packet filled.filled.toNat
            if done.2.1 then
              ⟨shortOr (sent + consumed) .eintr, done.2.2.taken, true, false⟩
            else if done.1 ≠ .success then
              let txWait := noWait && (done.1 == .txQueueDepth || done.1 == .windowOverflow)
              if 0 < sent + consumed then
                ⟨.ok (sent + consumed), done.2.2.taken, true, txWait⟩
              else if done.1 = .notConnected then
                ⟨.error .epipe, done.2.2.taken, false, txWait⟩
              else ⟨.error (bsdWaitErrno forever done.1), done.2.2.taken, true, txWait⟩
            else
              sendLoop sock mss rounds len (i + 1) filled.cur (sent + filled.filled.toNat)
                (noWait || sock.nonblock) filled.why done.2.2.taken
  else behind why
termination_by (len - sent).toNat
decreasing_by
  change (len - ((sent + filled.filled.toNat : Nat) : Int)).toNat < (len - sent).toNat
  have hpos : ¬filled.filled ≤ 0 := _hfilled
  generalize filled.filled = k at hpos
  omega

/-- `bsd_send_tcp_run()`. -/
def bsdSendTcpRun (sock : SendSocket) (rounds : Nat → SendRound) (cur : BsdIovCursor)
    (len : Int) : SendResult :=
  if !sock.pool then ⟨.error .enetdown, [], sock.connected, false⟩
  else if !sock.connected then ⟨.error .enotconn, [], sock.connected, false⟩
  else if sock.wrshut then ⟨.error .epipe, [], sock.connected, false⟩
  else
    sendLoop sock (if sock.mss = 0 then 536 else sock.mss) rounds len 0 cur 0
      (sock.wait == some 0) .noPacket []

/-! ### What a run returns -/

/-- The value of a send counts the bytes that were taken; an error says that there are none. -/
def Counts : Except SendErrno Nat → List UByte → Prop
  | .ok n, taken => taken.length = n
  | .error _, taken => taken = []

/-- The account of a run: what was taken is the front of the list, no more than was to be sent, and
counted by the value. -/
structure SendResult.Accounts (r : SendResult) (gathered : List UByte) (len : Int) : Prop where
  front : r.taken <+: gathered
  bound : r.taken.length ≤ len.toNat
  counts : Counts r.value r.taken

theorem counts_shortOr {taken : List UByte} {sent : Nat} (h : taken.length = sent)
    (errno : SendErrno) : Counts (shortOr sent errno) taken := by
  unfold shortOr
  split_ifs with hpos
  · exact h
  · exact List.eq_nil_of_length_eq_zero (by omega)

theorem sendPacket_took (r : SendRound) (left : Nat) (o : Offer) :
    o.Took (sendPacket r left o).2.2 := by
  unfold sendPacket
  split_ifs
  · exact (o.took_send _).trans (bsdWaitEvent_took _ _ _)
  · exact o.took_send _

/-- A send that succeeds leaves nothing of the packet. -/
theorem sendPacket_success {r : SendRound} {left : Nat} {o : Offer}
    (hok : (sendPacket r left o).1 = .success) (hgoes : (sendPacket r left o).2.1 = false) :
    (sendPacket r left o).2.2.packet = [] := by
  unfold sendPacket at hok hgoes ⊢
  split_ifs at hok hgoes ⊢ with hagain
  · exact bsdWaitEvent_success hok hgoes
  · change (o.send r.send).packet = []
    rw [Offer.send, if_pos hok]

theorem counts_behind {taken : List UByte} {sent : Nat} (h : taken.length = sent) (len : Int)
    (errno : SendErrno) : Counts (if sent = 0 ∧ 0 < len then .error errno else .ok sent) taken := by
  split_ifs with hzero
  · exact List.eq_nil_of_length_eq_zero (by omega)
  · exact h

/-- **A turn keeps account**: of a filled packet, NetX takes the next bytes of the list, as many as
`bsd_send_consumed()` says; and if it takes the packet, the cursor is behind what is taken. -/
theorem sendPacket_accounts {taken gathered : List UByte} {cur : BsdIovCursor} {a : Appended}
    {sent want : Nat} {r : SendRound} {left : Nat} {done : SendStatus × Bool × Offer}
    (hsplit : taken ++ cur.rest = gathered) (hsent : taken.length = sent)
    (ha : a.Filled cur.rest want) (hfilled : ¬a.filled ≤ 0)
    (hdone : sendPacket r left ⟨taken, a.packet⟩ = done) :
    (done.2.2.taken <+: gathered ∧
      done.2.2.taken.length = sent + bsdSendConsumed done.2.2.packet a.filled.toNat ∧
      done.2.2.taken.length ≤ sent + want) ∧
    (done.1 = .success → done.2.1 = false → done.2.2.taken ++ a.cur.rest = gathered ∧
      done.2.2.taken.length = sent + a.filled.toNat) := by
  subst hsent
  have htook : Offer.Took ⟨taken, a.packet⟩ done.2.2 := hdone ▸ sendPacket_took r left _
  have hwant := ha.length_le
  have hcount : a.filled.toNat = a.packet.length := by
    have := ha.count (by omega)
    omega
  have hall : taken ++ a.packet ++ a.cur.rest = gathered := by
    rw [List.append_assoc, ha.bytes, hsplit]
  have hbytes : done.2.2.taken ++ done.2.2.packet = taken ++ a.packet := htook.bytes
  refine ⟨⟨?_, ?_, ?_⟩, fun hok hgoes ↦ ?_⟩
  · exact (List.prefix_append _ _).trans ⟨_, by rw [hbytes, hall]⟩
  · rw [hcount]
    exact htook.consumed
  · have hlen := congrArg List.length hbytes
    rw [List.length_append, List.length_append] at hlen
    omega
  · subst hdone
    rw [sendPacket_success hok hgoes, List.append_nil] at hbytes
    rw [hbytes, hcount, List.length_append]
    exact ⟨hall, rfl⟩

/-- **Every turn keeps account**, and so does the run: while what was taken and what is behind the
cursor make up the list, and `sent` counts the former, the value in the end counts what is taken in
the end. -/
theorem sendLoop_accounts (sock : SendSocket) (mss : Nat) (rounds : Nat → SendRound) (len : Int)
    (i : Nat) (cur : BsdIovCursor) (sent : Nat) (noWait : Bool) (why : SendStatus)
    (taken gathered : List UByte) (hsplit : taken ++ cur.rest = gathered)
    (hsent : taken.length = sent) (hle : sent ≤ len.toNat) :
    (sendLoop sock mss rounds len i cur sent noWait why taken).Accounts gathered len := by
  have hfront {cur : BsdIovCursor} {taken : List UByte} (h : taken ++ cur.rest = gathered) :
      taken <+: gathered := ⟨_, h⟩
  -- A packet is for no more than what is left to send.
  have hroom {i sent left taken : Nat} (hlt : (sent : Int) < len)
      (h : taken ≤ sent + (allocPacket (rounds i) mss (len - sent).toNat left).2.2) :
      taken ≤ len.toNat := by
    have := allocPacket_le (rounds i) mss (len - sent).toNat left
    omega
  fun_induction sendLoop sock mss rounds len i cur sent noWait why taken with
  | case1 | case2 | case4 | case6 => exact ⟨hfront hsplit, hsent ▸ hle, counts_shortOr hsent _⟩
  | case3 | case5 | case12 => exact ⟨hfront hsplit, hsent ▸ hle, counts_behind hsent _ _⟩
  | case7 i cur sent noWait why taken hlt r _ _ packet _ _ filled hfilled left₂ =>
    obtain ⟨⟨hpre, hlen, hmax⟩, -⟩ := sendPacket_accounts hsplit hsent
      (bsdPacketAppendIov_filled r.append packet.2.2 cur why) hfilled rfl
    exact ⟨hpre, hroom hlt hmax, counts_shortOr hlen _⟩
  | case8 i cur sent noWait why taken hlt r _ _ packet _ _ filled hfilled left₂ =>
    obtain ⟨⟨hpre, hlen, hmax⟩, -⟩ := sendPacket_accounts hsplit hsent
      (bsdPacketAppendIov_filled r.append packet.2.2 cur why) hfilled rfl
    exact ⟨hpre, hroom hlt hmax, hlen⟩
  | case9 i cur sent noWait why taken hlt r _ _ packet _ _ filled hfilled left₂ _ _ _ _ _ _ hnone =>
    obtain ⟨⟨hpre, hlen, hmax⟩, -⟩ := sendPacket_accounts hsplit hsent
      (bsdPacketAppendIov_filled r.append packet.2.2 cur why) hfilled rfl
    exact ⟨hpre, hroom hlt hmax,
      List.eq_nil_of_length_eq_zero (hlen.trans (Nat.eq_zero_of_not_pos hnone))⟩
  | case10 i cur sent noWait why taken _ hlt r _ _ packet _ _ filled hfilled left₂ _ _ _ _ _ _
      hnone =>
    obtain ⟨⟨hpre, hlen, hmax⟩, -⟩ := sendPacket_accounts hsplit hsent
      (bsdPacketAppendIov_filled r.append packet.2.2 cur why) hfilled rfl
    exact ⟨hpre, hroom hlt hmax,
      List.eq_nil_of_length_eq_zero (hlen.trans (Nat.eq_zero_of_not_pos hnone))⟩
  | case11 i cur sent noWait why taken hlt r _ _ packet _ _ filled hfilled left₂ _ _ hgoes hok ih =>
    obtain ⟨⟨-, -, hmax⟩, hnext⟩ := sendPacket_accounts hsplit hsent
      (bsdPacketAppendIov_filled r.append packet.2.2 cur why) hfilled rfl
    obtain ⟨hsplit', hlen⟩ := hnext (Decidable.not_not.mp hok) (Bool.not_eq_true _ ▸ hgoes)
    exact ih hsplit' hlen (hroom hlt (hlen ▸ hmax))

/-- **`bsd_send_tcp_run()` returns what NetX took.**  For every iovec list, every length and every
sequence of answers: what NetX took is the front of the gathered buffer, in order and without gap or
repeat; a count that is returned is its length; and an error is returned only if it is empty. -/
theorem bsdSendTcpRun_accounts (sock : SendSocket) (rounds : Nat → SendRound)
    (iov : List (List UByte)) (len : Int) :
    (bsdSendTcpRun sock rounds (bsdIovInit iov) len).taken <+: iov.flatten.take len.toNat ∧
      Counts (bsdSendTcpRun sock rounds (bsdIovInit iov) len).value
        (bsdSendTcpRun sock rounds (bsdIovInit iov) len).taken := by
  unfold bsdSendTcpRun
  generalize (if sock.mss = 0 then 536 else sock.mss) = mss
  split_ifs
  · exact ⟨List.nil_prefix, rfl⟩
  · exact ⟨List.nil_prefix, rfl⟩
  · exact ⟨List.nil_prefix, rfl⟩
  · have h := sendLoop_accounts sock mss rounds len 0 (bsdIovInit iov) 0 (sock.wait == some 0)
      .noPacket [] iov.flatten (rest_zero iov) rfl (Nat.zero_le _)
    exact ⟨List.prefix_take_iff.mpr ⟨h.front, h.bound⟩, h.counts⟩

end AmiNetXDuo.BsdSocket
