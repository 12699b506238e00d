import AmiNetXDuo.Basic
import AmiNetXDuo.Lib.Memory
import AmiNetXDuo.Mbuf.Pool

/-!
# Chains of mbufs

The chain operations of `mbuf_ops.c`.  A chain is the list of its mbufs in the order of `m_next`;
the data of an mbuf lies in memory from `m_data` on, inside the mbuf or in the external storage that
it points at.  What `ami_mbuf_get` can still hand out is a list of mbufs, to which freed ones
return.

A `LONG` is an integer of 32 bits: where a sum or a difference of the source can leave that range,
`long` wraps it.

## Main definitions

* `MBuf`, `Heap` : an mbuf, and the memory with the mbufs that are left.
* `amiMbufAdj`, `amiMbufPullup` : the operations.
* `chainBytes`, `chainLength` : the bytes of a chain and their number.
* `WellFormed` : chains as the operations meet them.
-/

namespace AmiNetXDuo.Mbuf

/-- Memory, by address. -/
abbrev Mem := Nat → UByte

/-- A `LONG`: what a sum or a difference leaves of an integer. -/
def long (x : Int) : Int := (x + 2 ^ 31) % 2 ^ 32 - 2 ^ 31

/-- `MLEN` and `MHLEN`: the data area of an mbuf without and with a packet header. -/
def mlen : Nat := 108
def mhlen : Nat := 100

/-- The offsets of `m_dat` and `m_pktdat`. -/
def offDat : Nat := 20
def offPktdat : Nat := 28

/-- `MT_DATA`. -/
def mtData : Nat := 1

/-- `m_flags`. -/
structure Flags where
  ext : Bool
  pkthdr : Bool
  eor : Bool
  bcast : Bool
  mcast : Bool
  deriving DecidableEq, Repr

/-- No flag. -/
def Flags.clear : Flags := ⟨false, false, false, false, false⟩

/-- `m_pkthdr`. -/
structure PktHdr where
  rcvif : Nat
  len : Int
  deriving DecidableEq, Repr

/-- `m_ext`; `owned` for a cluster of the pool. -/
structure ExtBuf where
  buf : Nat
  size : Nat
  owned : Bool
  deriving DecidableEq, Repr

/-- An mbuf.  `pkthdr` and `ext` mean something where the flags say so. -/
structure MBuf where
  addr : Nat
  data : Nat
  len : Int
  type : Nat
  flags : Flags
  pkthdr : PktHdr
  ext : ExtBuf
  deriving DecidableEq, Repr

/-- `AMI_MBUF_BASE` and `AMI_MBUF_END`. -/
def MBuf.base (m : MBuf) : Nat := if m.flags.pkthdr then m.addr + offPktdat else m.addr + offDat
def MBuf.limit (m : MBuf) : Nat := m.addr + msize

/-- Memory, and the mbufs that are left. -/
structure Heap where
  mem : Mem
  avail : List Nat

/-- What `ami_mbuf_get` makes of the mbuf at an address. -/
def freshMbuf (a : Nat) : MBuf :=
  ⟨a, a + offDat, 0, mtData, .clear, ⟨0, 0⟩, ⟨0, 0, false⟩⟩

/-- `ami_mbuf_get`. -/
def amiMbufGet (h : Heap) : Option (MBuf × Heap) :=
  match h.avail with
  | [] => none
  | a :: rest => some (freshMbuf a, { h with avail := rest })

/-- `ami_mbuf_free`, as far as the chain is concerned: the mbuf can be handed out again. -/
def amiMbufFree (h : Heap) (m : MBuf) : Heap := { h with avail := m.addr :: h.avail }

/-- `ami_mbuf_freem`. -/
def amiMbufFreem (h : Heap) : List MBuf → Heap
  | [] => h
  | m :: chain => amiMbufFreem (amiMbufFree h m) chain

/-- `ami_mbuf_copy_bytes`. -/
def Heap.copyBytes (h : Heap) (dst src n : Nat) : Heap :=
  { h with mem := Memory.copy h.mem src dst n }

/-- The bytes of an mbuf. -/
def MBuf.bytes (mem : Mem) (m : MBuf) : List UByte := Memory.read mem m.data m.len.toNat

/-- The bytes of a chain. -/
def chainBytes (mem : Mem) (chain : List MBuf) : List UByte := chain.flatMap (MBuf.bytes mem)

/-- The byte length of a chain. -/
def chainLength (chain : List MBuf) : Nat := (chain.map fun m ↦ m.len.toNat).sum

/-! ### `mbuf_adj` -/

/-- The trim from the front: the chain, and what of the length is left to trim. -/
def adjFront : List MBuf → Int → List MBuf × Int
  | [], len => ([], len)
  | m :: chain, len =>
      if len > 0 then
        if m.len ≤ len then
          let rest := adjFront chain (len - m.len)
          ({ m with len := 0 } :: rest.1, rest.2)
        else ({ m with len := m.len - len, data := m.data + len.toNat } :: chain, 0)
      else (m :: chain, len)

/-- The trim from the back: `keep` bytes are given out. -/
def adjBack : List MBuf → Int → List MBuf
  | [], _ => []
  | m :: chain, keep =>
      if m.len ≥ keep then { m with len := keep } :: adjBack chain 0
      else m :: adjBack chain (keep - m.len)

/-- The head of a chain with its packet length changed, where it has one. -/
def setPktLen (f : Int → Int) : List MBuf → List MBuf
  | [] => []
  | m :: chain =>
      (if m.flags.pkthdr then { m with pkthdr := { m.pkthdr with len := f m.pkthdr.len } } else m)
        :: chain

/-- `ami_mbuf_adj`; `none` is the answer `-1`. -/
def amiMbufAdj (chain : List MBuf) (reqLen : Int) : Option (List MBuf) :=
  if chain = [] then none
  else if reqLen ≥ 0 then
    let trimmed := adjFront chain reqLen
    some (setPktLen (fun len ↦ len - (reqLen - trimmed.2)) trimmed.1)
  else if reqLen = -2 ^ 31 then
    some (setPktLen (fun _ ↦ 0) (chain.map fun m ↦ { m with len := 0 }))
  else
    let total := (chain.map (·.len)).foldl (fun total len ↦ long (total + len)) 0
    let keep := if total - -reqLen < 0 then 0 else total - -reqLen
    some (adjBack (setPktLen (fun _ ↦ keep) chain) keep)

/-! ### `mbuf_pullup` -/

/-- The address `p + off`. -/
def offsetBy (p : Nat) (off : Int) : Nat := ((p : Int) + off).toNat

/-- The loop that gathers into `m`: `m` with what it got, the mbufs left, what is still asked for
and the heap. -/
def pullupGather (h : Heap) (m : MBuf) (chain : List MBuf) (len space : Int) :
    MBuf × List MBuf × Int × Heap :=
  match chain with
  | [] => (m, [], len, h)
  | n :: rest =>
      if len > 0 then
        let count := if n.len > space then space else n.len
        if _hcount : count ≤ 0 then (m, n :: rest, len, h)
        else
          let h' := h.copyBytes (offsetBy m.data m.len) n.data count.toNat
          let m' := { m with len := m.len + count }
          if n.len - count > 0 then
            pullupGather h' m'
              ({ n with len := n.len - count, data := n.data + count.toNat } :: rest)
              (len - count) (space - count)
          else pullupGather (amiMbufFree h' n) m' rest (len - count) (space - count)
      else (m, n :: rest, len, h)
termination_by (chain.map fun n ↦ n.len.toNat + 1).sum
decreasing_by
  · simp only [List.map_cons, List.sum_cons]
    omega
  · simp only [List.map_cons, List.sum_cons]
    omega

/-- The end of `ami_mbuf_pullup`, with the mbuf to gather into chosen. -/
def pullupInto (h : Heap) (m : MBuf) (chain : List MBuf) (len : Int) : Option (List MBuf) × Heap :=
  let space := (m.limit : Int) - offsetBy m.data m.len
  let r := pullupGather h m chain len space
  if r.2.2.1 > 0 then (none, amiMbufFreem r.2.2.2 (r.1 :: r.2.1))
  else (some (r.1 :: r.2.1), r.2.2.2)

/-- The mbuf that takes over the head of a chain, with its packet header. -/
def takeOver (m n : MBuf) : MBuf :=
  if n.flags.pkthdr then
    { m with
      type := n.type, len := 0
      flags := { n.flags with ext := false }
      pkthdr := n.pkthdr
      data := m.addr + offPktdat }
  else { m with type := n.type, len := 0 }

/-- The head without its packet header. -/
def dropPkthdr (n : MBuf) : MBuf := { n with flags := { n.flags with pkthdr := false } }

/-- `ami_mbuf_pullup`; `none` is the answer `NULL`. -/
def amiMbufPullup (h : Heap) (chain : List MBuf) (len : Int) : Option (List MBuf) × Heap :=
  match chain with
  | [] => (none, h)
  | n :: rest =>
      if len < 0 then (none, amiMbufFreem h (n :: rest))
      else if len = 0 ∨ n.len ≥ len then (some (n :: rest), h)
      else if ¬n.flags.ext ∧ rest ≠ [] ∧ (n.data + len.toNat) % 2 ^ 32 ≤ n.limit then
        pullupInto h n rest (len - n.len)
      else
        match amiMbufGet h with
        | none => (none, amiMbufFreem h (n :: rest))
        | some (m, h) =>
            let m := takeOver m n
            if len > (m.limit : Int) - m.base then
              (none, amiMbufFreem h (m :: (if n.flags.pkthdr then dropPkthdr n else n) :: rest))
            else pullupInto h m ((if n.flags.pkthdr then dropPkthdr n else n) :: rest) len

/-! ### Well-formed chains -/

/-- Two runs of memory that do not meet. -/
def Apart (a n b k : Nat) : Prop := a + n ≤ b ∨ b + k ≤ a

instance (a n b k : Nat) : Decidable (Apart a n b k) := inferInstanceAs (Decidable (_ ∨ _))

/-- Bytes that lie apart from what is written. -/
theorem chainBytes_write_of_apart (mem : Mem) {dst : Nat} {bytes : List UByte} {chain : List MBuf}
    (h : ∀ n ∈ chain, Apart dst bytes.length n.data n.len.toNat) :
    chainBytes (Memory.write mem dst bytes) chain = chainBytes mem chain := by
  unfold chainBytes
  simp only [List.flatMap]
  congr 1
  exact List.map_congr_left fun n hn ↦ Memory.read_write_of_apart (h n hn).symm

theorem chainLength_cons (m : MBuf) (chain : List MBuf) :
    chainLength (m :: chain) = m.len.toNat + chainLength chain := by
  simp [chainLength]

theorem length_chainBytes (mem : Mem) (chain : List MBuf) :
    (chainBytes mem chain).length = chainLength chain := by
  simp only [chainBytes, chainLength, List.length_flatMap, MBuf.bytes, Memory.length_read]

/-- The storage that the data of an mbuf lies in: where it starts and its size. -/
def MBuf.storage (m : MBuf) : Nat := if m.flags.ext then m.ext.buf else m.base
def MBuf.room (m : MBuf) : Nat := if m.flags.ext then m.ext.size else m.limit - m.base

/-- The data of an mbuf lies in its storage. -/
structure MBuf.Ok (m : MBuf) : Prop where
  nonneg : 0 ≤ m.len
  isLong : m.len < 2 ^ 31
  start : m.storage ≤ m.data
  stop : m.data + m.len.toNat ≤ m.storage + m.room
  /-- An mbuf does not lie in the last bytes of the address space. -/
  inMemory : m.limit + msize < 2 ^ 32

instance (m : MBuf) : Decidable m.Ok :=
  decidable_of_iff (0 ≤ m.len ∧ m.len < 2 ^ 31 ∧ m.storage ≤ m.data ∧
    m.data + m.len.toNat ≤ m.storage + m.room ∧ m.limit + msize < 2 ^ 32)
    ⟨fun ⟨a, b, c, d, e⟩ ↦ ⟨a, b, c, d, e⟩, fun h ↦ ⟨h.1, h.2, h.3, h.4, h.5⟩⟩

/-- The mbuf at an address lies apart from the data of another, and from the mbuf itself. -/
def ApartFrom (a : Nat) (m : MBuf) : Prop :=
  Apart a msize m.storage m.room ∧ Apart a msize m.addr msize

instance (a : Nat) (m : MBuf) : Decidable (ApartFrom a m) := inferInstanceAs (Decidable (_ ∧ _))

/-- **A well-formed chain.**  Each mbuf is, and the mbufs lie apart from each other's data; only
external storage may be shared.  What can be handed out lies apart from all of them. -/
structure WellFormed (h : Heap) (chain : List MBuf) : Prop where
  ok : ∀ m ∈ chain, m.Ok
  separate : chain.Pairwise fun m n ↦ ApartFrom m.addr n ∧ ApartFrom n.addr m
  spare : ∀ a ∈ h.avail, ∀ m ∈ chain, ApartFrom a m
  spares : h.avail.Pairwise fun a b ↦ Apart a msize b msize
  spareInMemory : ∀ a ∈ h.avail, a + msize + msize < 2 ^ 32

theorem offsetBy_of_nonneg (p : Nat) {off : Int} (h : 0 ≤ off) :
    offsetBy p off = p + off.toNat := by
  rw [offsetBy, Int.toNat_add (Int.natCast_nonneg p) h, Int.toNat_natCast]

theorem amiMbufFreem_avail (h : Heap) (chain : List MBuf) :
    (amiMbufFreem h chain).avail = (chain.map (·.addr)).reverse ++ h.avail := by
  induction chain generalizing h with
  | nil => rfl
  | cons m chain ih => simp [amiMbufFreem, ih, amiMbufFree]

end AmiNetXDuo.Mbuf
