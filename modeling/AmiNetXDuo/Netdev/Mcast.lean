import AmiNetXDuo.Lib.Interleaving
import AmiNetXDuo.Lib.UseTable

/-!
# Multicast membership of a network unit

`anxnet.device` keeps the multicast addresses its openers have joined in a table of 32 counted rows
(`netdev_mcast.c`), and programs the hash filter of the card from it (`netdev_rebuild_filter`). A
range of addresses that is too wide for the table is counted as a whole and opens the filter. This
module models the commands of `netdev_cmds.c`, the table and the filter, and the histories of
commands on a unit.

## Main definitions

* `EtherAddr`, `mcastNext` : addresses, and the one after another.
* `mcastAdd`, `mcastDel`, `mcastRangeApply` : the table.
* `rebuildFilter`, `marPasses` : the filter, and what the card lets through.
* `cmdMulticastAddress`, `cmdMulticastRange` : the commands.
* `McastWorld`, `mcastStep` : a unit with the adds that are outstanding.
-/

namespace AmiNetXDuo.Netdev

open AmiNetXDuo.Lib

/-- `NETDEV_MCAST_MAX`. -/
def netdevMcastMax : ℕ := 32

/-- An Ethernet address, `UBYTE addr[6]`. -/
structure EtherAddr where
  b0 : UInt8
  b1 : UInt8
  b2 : UInt8
  b3 : UInt8
  b4 : UInt8
  b5 : UInt8
  deriving DecidableEq, Repr

/-- `mcast_addr16`: the first two bytes. -/
def EtherAddr.addr16 (a : EtherAddr) : ℕ :=
  a.b0.toNat * 2 ^ 8 + a.b1.toNat

/-- `mcast_addr32`: the last four bytes. -/
def EtherAddr.addr32 (a : EtherAddr) : ℕ :=
  a.b2.toNat * 2 ^ 24 + a.b3.toNat * 2 ^ 16 + a.b4.toNat * 2 ^ 8 + a.b5.toNat

/-- Bit 0 of the first byte: a group. -/
def EtherAddr.isGroup (a : EtherAddr) : Bool :=
  a.b0 &&& 1 ≠ 0

/-- `mcast_next`: one more, carried through the last four bytes. -/
def mcastNext (a : EtherAddr) : EtherAddr :=
  if a.b5 + 1 ≠ 0 then { a with b5 := a.b5 + 1 }
  else if a.b4 + 1 ≠ 0 then { a with b5 := 0, b4 := a.b4 + 1 }
  else if a.b3 + 1 ≠ 0 then { a with b5 := 0, b4 := 0, b3 := a.b3 + 1 }
  else { a with b5 := 0, b4 := 0, b3 := 0, b2 := a.b2 + 1 }

/-- `netdev_mcast_range_wide`: the number of addresses of an inclusive range the table could hold,
nothing when it is too wide, runs backwards or leaves the last four bytes. -/
def mcastRangeCount (lo hi : EtherAddr) : Option ℕ :=
  if lo.addr16 ≠ hi.addr16 ∨ hi.addr32 < lo.addr32 then none
  else if netdevMcastMax ≤ hi.addr32 - lo.addr32 then none
  else some (hi.addr32 - lo.addr32 + 1)

/-! ### The table -/

/-- `NetdevMcast`: a row, free when nothing refers to it. -/
structure McastRow where
  addr : EtherAddr
  refs : ℕ
  deriving DecidableEq, Repr

/-- What a row is looked up by: its address, or nothing for a free row. -/
def McastRow.key (r : McastRow) : Option EtherAddr :=
  if r.refs = 0 then none else some r.addr

/-- The rows of a unit. -/
structure McastTable where
  rows : List McastRow
  length_eq : rows.length = netdevMcastMax

/-- `mcast_find`. -/
def mcastFind (t : McastTable) (addr : EtherAddr) : Option McastRow :=
  UseTable.first McastRow.key (some addr) t.rows

/-- Change the first row with a key. -/
def McastTable.set (t : McastTable) (key : Option EtherAddr) (f : McastRow → McastRow) :
    McastTable where
  rows := UseTable.setFirst McastRow.key key f t.rows
  length_eq := by
    rw [UseTable.setFirst, List.length_replaceF]
    exact t.length_eq

/-- `netdev_mcast_add`; `none` is the source's FALSE. -/
def mcastAdd (t : McastTable) (addr : EtherAddr) : Option McastTable :=
  match mcastFind t addr with
  | some m =>
    if m.refs = 0xFFFF then none
    else some (t.set (some addr) fun r ↦ { r with refs := r.refs + 1 })
  | none =>
    if (UseTable.first McastRow.key none t.rows).isSome then some (t.set none fun _ ↦ ⟨addr, 1⟩)
    else none

/-- `netdev_mcast_del`; `none` is the source's FALSE. -/
def mcastDel (t : McastTable) (addr : EtherAddr) : Option McastTable :=
  match mcastFind t addr with
  | none => none
  | some _ => some (t.set (some addr) fun r ↦ { r with refs := r.refs - 1 })

/-- How many rows are free. -/
def McastTable.freeRows (t : McastTable) : ℕ :=
  t.rows.countP fun r ↦ r.refs = 0

/-- The preflight of a range: how many rows it needs, nothing when a count in it is exhausted. -/
def mcastRangeNeeds (t : McastTable) : ℕ → EtherAddr → Option ℕ
  | 0, _ => some 0
  | n + 1, addr =>
    match mcastFind t addr with
    | some m => if m.refs = 0xFFFF then none else mcastRangeNeeds t n (mcastNext addr)
    | none => (mcastRangeNeeds t n (mcastNext addr)).map (· + 1)

/-- The loop that applies a range, and how many addresses it found to apply it to. -/
def mcastRangeLoop (add : Bool) : ℕ → EtherAddr → McastTable × ℕ → McastTable × ℕ
  | 0, _, s => s
  | n + 1, addr, s =>
    mcastRangeLoop add n (mcastNext addr)
      (if add then ((mcastAdd s.1 addr).getD s.1, s.2 + 1)
      else match mcastDel s.1 addr with
        | none => s
        | some t => (t, s.2 + 1))

/-- `netdev_mcast_range_apply`; `none` is the source's FALSE. -/
def mcastRangeApply (t : McastTable) (lo : EtherAddr) (count : ℕ) (add : Bool) :
    Option McastTable :=
  if add then
    match mcastRangeNeeds t count lo with
    | none => none
    | some needed => if t.freeRows < needed then none else finish
  else finish
where
  /-- The second pass: nothing found is a refusal. -/
  finish : Option McastTable :=
    if (mcastRangeLoop add count lo (t, 0)).2 ≠ 0 then
      some (mcastRangeLoop add count lo (t, 0)).1
    else none

/-! ### The filter -/

/-- One bit of `netdev_ether_crc32_be`. -/
def etherCrcBit (s : UInt32 × UInt8) : UInt32 × UInt8 :=
  let carry : UInt32 := (if s.1 &&& 0x80000000 ≠ 0 then 1 else 0) ^^^ (s.2 &&& 1).toUInt32
  (if carry ≠ 0 then ((s.1 <<< 1) ^^^ 0x04C11DB6) ||| carry else s.1 <<< 1, s.2 >>> 1)

/-- One byte of `netdev_ether_crc32_be`. -/
def etherCrcByte (crc : UInt32) (c : UInt8) : UInt32 :=
  (etherCrcBit (etherCrcBit (etherCrcBit (etherCrcBit (etherCrcBit (etherCrcBit (etherCrcBit
    (etherCrcBit (crc, c))))))))).1

/-- The bytes of an address in order. -/
def EtherAddr.bytes (a : EtherAddr) : List UInt8 :=
  [a.b0, a.b1, a.b2, a.b3, a.b4, a.b5]

/-- One bit of the reflected CRC of `netdev_mar_set_lance`. -/
def lanceCrcBit (crc : UInt32) : UInt32 :=
  (crc >>> 1) ^^^ (if crc &&& 1 ≠ 0 then 0xEDB88320 else 0)

/-- One byte of it. -/
def lanceCrcByte (crc : UInt32) (c : UInt8) : UInt32 :=
  lanceCrcBit (lanceCrcBit (lanceCrcBit (lanceCrcBit (lanceCrcBit (lanceCrcBit (lanceCrcBit
    (lanceCrcBit (crc ^^^ c.toUInt32))))))))

/-- The bit of the 64-bit hash an address is filed under; the Am7990 family takes the other bit
order (`lance`). -/
def marHash (lance : Bool) (a : EtherAddr) : UInt32 :=
  a.bytes.foldl (if lance then lanceCrcByte else etherCrcByte) 0xFFFFFFFF >>> 26

/-- The eight bytes of the hash. -/
abbrev Mar := Fin 8 → UInt8

/-- The byte of the hash a bit is in. -/
def marByte (hash : UInt32) : Fin 8 :=
  ⟨(hash >>> 3).toNat % 8, Nat.mod_lt _ (by decide)⟩

/-- The bit within its byte. -/
def marBit (hash : UInt32) : UInt8 :=
  1 <<< (hash &&& 7).toUInt8

/-- `netdev_mar_set` and `netdev_mar_set_lance`. -/
def marSet (lance : Bool) (mar : Mar) (a : EtherAddr) : Mar :=
  Function.update mar (marByte (marHash lance a))
    (mar (marByte (marHash lance a)) ||| marBit (marHash lance a))

/-- The card lets a group address through when the bit of its hash is set. -/
def marPasses (lance : Bool) (mar : Mar) (a : EtherAddr) : Bool :=
  mar (marByte (marHash lance a)) &&& marBit (marHash lance a) ≠ 0

/-- The unit: what the commands and the filter read and write. -/
structure McastUnit where
  table : McastTable
  allMulti : ℕ
  mcastFull : ℕ
  lance : Bool
  promisc : Bool
  mar : Mar

/-- The `mar[]` that `netdev_rebuild_filter` writes. Its flag `all_multi` says `allMulti ≠ 0` once
more, and what the `setfilter` of a card does with the two is left out. -/
def rebuildFilter (u : McastUnit) : McastUnit :=
  { u with
    mar := if u.promisc || u.allMulti ≠ 0 then fun _ ↦ 0xFF
      else u.table.rows.foldl
        (fun mar r ↦ if r.refs ≠ 0 then marSet u.lance mar r.addr else mar) fun _ ↦ 0 }

/-! ### The commands -/

/-- What a command is answered with. -/
inductive McastReply
  | ok
  | badAddress
  | noResources
  | badState
  deriving DecidableEq, Repr

/-- The end both commands share: a refused add is counted, an applied one programs the card. -/
def mcastFinish (u : McastUnit) (add : Bool) (applied : Option McastUnit) :
    McastUnit × McastReply :=
  match applied with
  | some u' => (rebuildFilter u', .ok)
  | none => if add then ({ u with mcastFull := u.mcastFull + 1 }, .noResources) else (u, .badState)

/-- `cmd_multicast_address`. -/
def cmdMulticastAddress (u : McastUnit) (src : EtherAddr) (add : Bool) : McastUnit × McastReply :=
  if src.isGroup = false then (u, .badAddress)
  else mcastFinish u add
    ((if add then mcastAdd u.table src else mcastDel u.table src).map fun t ↦ { u with table := t })

/-- `cmd_multicast_range`. -/
def cmdMulticastRange (u : McastUnit) (src dst : EtherAddr) (add : Bool) :
    McastUnit × McastReply :=
  if src.isGroup = false then (u, .badAddress)
  else mcastFinish u add
    (match mcastRangeCount src dst with
    | none =>
      if add then
        if u.allMulti = 0xFFFF then none else some { u with allMulti := u.allMulti + 1 }
      else if u.allMulti ≠ 0 then some { u with allMulti := u.allMulti - 1 }
      else none
    | some count =>
      (mcastRangeApply u.table src count add).map fun t ↦ { u with table := t })

/-! ### Histories -/

/-- An add that has succeeded. -/
inductive McastJoin
  | single (addr : EtherAddr)
  | range (lo hi : EtherAddr)
  deriving DecidableEq, Repr

/-- The add is of a range too wide for the table. -/
def McastJoin.wide : McastJoin → Bool
  | .single _ => false
  | .range lo hi => (mcastRangeCount lo hi).isNone

/-- The add is narrow and covers an address. -/
def McastJoin.covers (a : EtherAddr) : McastJoin → Bool
  | .single addr => addr = a
  | .range lo hi =>
    (mcastRangeCount lo hi).isSome && lo.addr16 = a.addr16 && lo.addr32 ≤ a.addr32 &&
      a.addr32 ≤ hi.addr32

/-- A unit with the adds that have succeeded and were not undone, once for each. -/
structure McastWorld where
  hw : McastUnit
  joins : List McastJoin

/-- The commands on a unit, and the promiscuous mode an opener may turn on or off. -/
inductive McastEvent
  | add (addr : EtherAddr)
  | del (addr : EtherAddr)
  | addRange (lo hi : EtherAddr)
  | delRange (lo hi : EtherAddr)
  | promisc (on rebuild : Bool)

/-- One step. A delete names an add that is outstanding. -/
def mcastStep (w : McastWorld) : McastEvent → Option McastWorld
  | .add addr =>
    let r := cmdMulticastAddress w.hw addr true
    some ⟨r.1, if r.2 = .ok then .single addr :: w.joins else w.joins⟩
  | .del addr =>
    if .single addr ∈ w.joins then
      let r := cmdMulticastAddress w.hw addr false
      some ⟨r.1, if r.2 = .ok then w.joins.erase (.single addr) else w.joins⟩
    else none
  | .addRange lo hi =>
    let r := cmdMulticastRange w.hw lo hi true
    some ⟨r.1, if r.2 = .ok then .range lo hi :: w.joins else w.joins⟩
  | .delRange lo hi =>
    if .range lo hi ∈ w.joins then
      let r := cmdMulticastRange w.hw lo hi false
      some ⟨r.1, if r.2 = .ok then w.joins.erase (.range lo hi) else w.joins⟩
    else none
  | .promisc on rebuild =>
    let u := { w.hw with promisc := on }
    some { w with hw := if rebuild then rebuildFilter u else u }

/-- A unit nobody has joined anything on: every row is free and nothing is outstanding. -/
def McastWorld.Initial (w : McastWorld) : Prop :=
  (∀ r ∈ w.hw.table.rows, r.refs = 0) ∧ w.hw.allMulti = 0 ∧ w.joins = []

end AmiNetXDuo.Netdev
