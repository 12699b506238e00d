import AmiNetXDuo.Bpf.ViewCopy
import AmiNetXDuo.Lib.Interleaving
import AmiNetXDuo.Lib.Memory
import Mathlib.Data.List.Forall2

/-!
# Capture channels

A channel has two buffers.  The tap appends records to the one it stores into, a reader takes them
from the one it holds, and the two change places when the reader's is empty.  A read decides under
the lock which records it takes, copies them without the lock, and takes the lock again to move on.
Between its bytes other sections run: captures, other reads, a flush or a new filter.

A record starts on a longword; the bytes between two records are whatever the buffer held there.

## Main definitions

* `AmiBpfChan`, `amiBpfCapture`, `amiBpfReadLook`, `amiBpfReadEnd` : a channel, and the sections of
  `ami_bpf_capture` and `ami_bpf_read`.
* `ChanSys`, `chanStep` : a channel with a log of what was stored and what was read.
* `Laid` : the records that lie in a buffer.

## Main results

* `laid_put` : a record written behind others.
* `readExtent_eq` : the loop of a read ends behind a record.
* `chanSys_inv` : what every section preserves.
* `chan_reads_in_order` : the records come out whole, once and in their order.
-/

namespace AmiNetXDuo.Bpf

open Interleaving Memory

/-! ### Records -/

/-- `AMI_BPF_HDRLEN`. -/
def amiBpfHdrlen : ℕ := 20

/-- `BPF_WORDALIGN`. -/
def bpfWordalign (x : ℕ) : ℕ := (x + 3) / 4 * 4

/-- `ami_bpf_put32`. -/
def amiBpfPut32 (v : ULong) : List UByte :=
  [v.extractLsb' 24 8, v.extractLsb' 16 8, v.extractLsb' 8 8, v.extractLsb' 0 8]

/-- `ami_bpf_put16`. -/
def amiBpfPut16 (v : UWord) : List UByte := [v.extractLsb' 8 8, v.extractLsb' 0 8]

/-- `ami_bpf_get32`. -/
def amiBpfGet32 (m : ℕ → UByte) (a : ℕ) : ℕ := BigEndian.value (read m a 4)

/-- `ami_bpf_get16`. -/
def amiBpfGet16 (m : ℕ → UByte) (a : ℕ) : ℕ := BigEndian.value (read m a 2)

/-- What a record says about a frame. -/
structure BpfRecord where
  sec : ULong
  usec : ULong
  datalen : ULong
  data : List UByte
  deriving DecidableEq

/-- The fields of a record in the order of their offsets, the pad and the captured bytes. -/
def BpfRecord.bytes (r : BpfRecord) : List UByte :=
  amiBpfPut32 r.sec ++ (amiBpfPut32 r.usec ++ (amiBpfPut32 (BitVec.ofNat 32 r.data.length) ++
    (amiBpfPut32 r.datalen ++ (amiBpfPut16 (BitVec.ofNat 16 amiBpfHdrlen) ++ ([0, 0] ++ r.data)))))

/-- The number of bytes of a record. -/
def BpfRecord.size (r : BpfRecord) : ℕ := amiBpfHdrlen + r.data.length

/-! ### A channel -/

/-- `AmiBpfChan`, open and with its buffers.  `store` and `hold` point to one of the two each. -/
structure AmiBpfChan where
  iface : Option ℕ
  blen : ℕ
  buf : Bool → ℕ → UByte
  /-- The buffer that `store` points to; `hold` points to the other one. -/
  storeBuf : Bool
  storeLen : ℕ
  holdLen : ℕ
  holdPos : ℕ
  reading : Bool
  filter : Option (List Insn)
  recvCount : ULong
  dropCount : ULong
  /-- `BPF_MINBUFSIZE`. -/
  blen_ge : 32 ≤ blen
  /-- `BPF_MAXBUFSIZE`. -/
  blen_le : blen ≤ 0x8000

def AmiBpfChan.store (ch : AmiBpfChan) : ℕ → UByte := ch.buf ch.storeBuf

def AmiBpfChan.hold (ch : AmiBpfChan) : ℕ → UByte := ch.buf !ch.storeBuf

/-- A view that leaves room for a header in the address space. -/
structure TapView extends View where
  caplen_lt : caplen.toNat + amiBpfHdrlen < 2 ^ 32

/-- `ami_bpf_rotate`. -/
def amiBpfRotate (ch : AmiBpfChan) : AmiBpfChan :=
  { ch with
    storeBuf := !ch.storeBuf
    holdLen := ch.storeLen
    holdPos := 0
    storeLen := 0 }

/-- The lengths `caplen` and `totlen` of `ami_bpf_capture`. -/
def captureLens (blen : ℕ) (slen : ULong) (view : View) : ℕ × ℕ :=
  let caplen := if slen < view.wirelen then slen else view.wirelen
  let caplen := (if caplen > view.caplen then view.caplen else caplen).toNat
  let totlen := (amiBpfHdrlen + caplen) % 2 ^ 32
  if blen < totlen then (blen - amiBpfHdrlen, blen) else (caplen, totlen)

/-- The record of a frame. -/
def captureRecord (view : View) (sec usec : ULong) (caplen : ℕ) : BpfRecord where
  sec := sec
  usec := usec
  datalen := view.wirelen
  data := amiBpfViewCopy view 0 (BitVec.ofNat 32 caplen)

/-- A record written at `curlen`. -/
def AmiBpfChan.put (ch : AmiBpfChan) (curlen totlen : ℕ) (r : BpfRecord) : AmiBpfChan :=
  { ch with
    buf := Function.update ch.buf ch.storeBuf (write ch.store curlen r.bytes)
    storeLen := curlen + totlen }

/-- `ami_bpf_capture` for a frame the filter wants; with the record, when there was room for it. -/
def captureWanted (ch : AmiBpfChan) (totlen : ℕ) (r : BpfRecord) : AmiBpfChan × Option BpfRecord :=
  let curlen := bpfWordalign ch.storeLen
  if ch.blen < curlen + totlen then
    if ch.holdLen = 0 ∧ ch.reading = false then ((amiBpfRotate ch).put 0 totlen r, some r)
    else ({ ch with dropCount := ch.dropCount + 1 }, none)
  else (ch.put curlen totlen r, some r)

/-- `ami_bpf_capture` under the lock, for one channel. -/
def amiBpfCapture (ch : AmiBpfChan) (ifp : ℕ) (view : View) (sec usec : ULong) :
    AmiBpfChan × Option BpfRecord :=
  if ch.iface ≠ some ifp ∨ ch.blen ≤ amiBpfHdrlen then (ch, none)
  else
    let ch := { ch with recvCount := ch.recvCount + 1 }
    match amiBpfFilterView ch.filter (some view) with
    | .ok (some slen) =>
      if slen = 0 then (ch, none)
      else
        let lens := captureLens ch.blen slen view
        captureWanted ch lens.2 (captureRecord view sec usec lens.1)
    | _ => (ch, none)

/-- The loop of `ami_bpf_read` over the records it takes: `end` and `pos`. -/
def readExtent (m : ℕ → UByte) (holdPos holdLen len : ℕ) : (fuel pos fin : ℕ) → Option (ℕ × ℕ)
  | 0, _, _ => none
  | fuel + 1, pos, fin =>
    if pos < holdLen then
      let reclen := (amiBpfGet16 m (pos + 16) + amiBpfGet32 m (pos + 8)) % 2 ^ 32
      if len < (pos - holdPos + reclen) % 2 ^ 32 then some (fin, pos)
      else readExtent m holdPos holdLen len fuel (pos + bpfWordalign reclen) (pos + reclen)
    else some (fin, pos)

/-- What one look of `ami_bpf_read` at the channel comes to. -/
inductive ReadAnswer where
  | einval
  /-- Another read is copying, and this one returns `0`. -/
  | busy
  | wait
  /-- The bytes to copy, and where the next read goes on. -/
  | copy (src nbytes pos : ℕ)
  deriving DecidableEq, Repr

/-- `ami_bpf_read` from where it has found out which buffer to read. -/
def readHeld (ch : AmiBpfChan) (len : ℕ) : Option (AmiBpfChan × ReadAnswer) :=
  if ch.holdLen = 0 then some (ch, .wait)
  else
    let start := ch.holdPos
    (readExtent ch.hold start ch.holdLen len (ch.holdLen + 1) start start).map fun r ↦
      if r.1 = start then (ch, .einval)
      else ({ ch with reading := true }, .copy start (r.1 - start) r.2)

/-- A read turns to the other buffer when there is nothing to read in its own. -/
def AmiBpfChan.turned (ch : AmiBpfChan) : AmiBpfChan :=
  if ch.holdLen = 0 ∧ 0 < ch.storeLen then amiBpfRotate ch else ch

/-- `ami_bpf_read` up to the copy, without the wait between two looks. -/
def amiBpfReadLook (ch : AmiBpfChan) (len : ℤ) : Option (AmiBpfChan × ReadAnswer) :=
  if len ≤ 0 then some (ch, .einval)
  else if ch.reading then some (ch, .busy)
  else readHeld ch.turned len.toNat

/-- `ami_bpf_read` after the copy. -/
def amiBpfReadEnd (ch : AmiBpfChan) (pos : ℕ) : AmiBpfChan :=
  { ch with
    holdLen := if ch.holdLen ≤ pos then 0 else ch.holdLen
    holdPos := if ch.holdLen ≤ pos then 0 else pos
    reading := false }

/-- What `BIOCFLUSH` and a new filter do to the buffers. -/
def AmiBpfChan.discard (ch : AmiBpfChan) : AmiBpfChan :=
  { ch with storeLen := 0, holdLen := 0, holdPos := 0 }

/-- `ami_bpf_ioctl_setf`, with memory for the copy; nothing for a program it refuses. -/
def amiBpfIoctlSetf (ch : AmiBpfChan) (prog : List Insn) : Option AmiBpfChan :=
  if prog ≠ [] ∧ amiBpfValidate (some prog) ≠ 0 then none
  else some { ch.discard with filter := if prog = [] then none else some prog }

/-- `ami_bpf_buffered`. -/
def amiBpfBuffered (ch : AmiBpfChan) : ℕ := ch.holdLen - ch.holdPos + ch.storeLen

/-! ### The system -/

/-- A copy under way: where it reads, and what it has copied. -/
structure Copying where
  which : Bool
  src : ℕ
  nbytes : ℕ
  pos : ℕ
  out : List UByte

/-- One more byte copied. -/
def Copying.push (c : Copying) (b : UByte) : Copying := { c with out := c.out ++ [b] }

/-- A channel with its reader, and a log. -/
structure ChanSys where
  ch : AmiBpfChan
  reader : Option Copying
  /-- The records that were stored before the buffers were last discarded. -/
  past : List BpfRecord
  /-- The records that were stored since. -/
  stored : List BpfRecord
  /-- What all reads have returned. -/
  results : List (List UByte)

/-- The sections, and the bytes of a copy. -/
inductive ChanEvent where
  | capture (ifp : ℕ) (view : TapView) (sec usec : ULong)
  | look (len : ℤ)
  | copyByte
  | readEnd
  | flush
  | setf (prog : List Insn)
  /-- `BIOCSETIF` on a channel with buffers, or its interface goes or comes back. -/
  | bind (iface : Option ℕ)

/-- The buffers discarded.  A copy under way goes on. -/
def ChanSys.discard (s : ChanSys) (ch : AmiBpfChan) : ChanSys :=
  { s with ch := ch, past := s.past ++ s.stored, stored := [] }

/-- The system after a look. -/
def ChanSys.answered (s : ChanSys) : AmiBpfChan × ReadAnswer → ChanSys
  | (ch, .copy src nbytes pos) =>
    { s with ch := ch, reader := some ⟨!ch.storeBuf, src, nbytes, pos, []⟩ }
  | (ch, _) => { s with ch := ch }

/-- The system after a read. -/
def ChanSys.finished (s : ChanSys) (c : Copying) : ChanSys :=
  { s with
    ch := amiBpfReadEnd s.ch c.pos
    reader := none
    results := s.results ++ [c.out] }

/-- One section, or one byte of a copy. -/
def chanStep (s : ChanSys) : ChanEvent → Option ChanSys
  | .capture ifp view sec usec =>
    let r := amiBpfCapture s.ch ifp view.toView sec usec
    some { s with ch := r.1, stored := s.stored ++ r.2.toList }
  | .look len => (amiBpfReadLook s.ch len).map s.answered
  | .copyByte => s.reader.bind fun c ↦
    if c.out.length < c.nbytes then
      some { s with reader := some (c.push (s.ch.buf c.which (c.src + c.out.length))) }
    else none
  | .readEnd => s.reader.bind fun c ↦
    if c.out.length < c.nbytes then none else some (s.finished c)
  | .flush => some (s.discard { s.ch.discard with recvCount := 0, dropCount := 0 })
  | .setf prog => some ((amiBpfIoctlSetf s.ch prog).elim s s.discard)
  | .bind iface => some { s with ch := { s.ch with iface := iface } }

/-- After the `BIOCSETIF` that allocates the buffers. -/
def ChanSys.Initial (s : ChanSys) : Prop :=
  s.ch.storeLen = 0 ∧ s.ch.holdLen = 0 ∧ s.ch.holdPos = 0 ∧ s.ch.reading = false ∧
    s.reader = none ∧ s.past = [] ∧ s.stored = [] ∧ s.results = []

/-! ### Records in a buffer -/

/-- The records that lie in a buffer from `pos` on, the last one ending at `fin` or before. -/
def Laid (m : ℕ → UByte) : (pos : ℕ) → List BpfRecord → (fin : ℕ) → Prop
  | pos, [], fin => pos = bpfWordalign fin
  | pos, r :: rs, fin =>
    read m pos r.size = r.bytes ∧ pos + r.size ≤ fin ∧ Laid m (pos + bpfWordalign r.size) rs fin

/-- What a read has returned is a run of whole records. -/
def ReadsAs (out : List UByte) (recs : List BpfRecord) : Prop :=
  recs ≠ [] ∧ Laid (fun i ↦ out.getD i 0) 0 recs out.length

theorem laid_nil (m : ℕ → UByte) : Laid m 0 [] 0 := by
  rw [Laid]
  rfl

theorem length_bytes (r : BpfRecord) : r.bytes.length = r.size := by
  simp only [BpfRecord.bytes, amiBpfPut32, amiBpfPut16, List.length_append, List.length_cons,
    List.length_nil, BpfRecord.size, amiBpfHdrlen]
  omega

theorem value_amiBpfPut32 (v : ULong) : BigEndian.value (amiBpfPut32 v) = v.toNat := by
  have hv := v.isLt
  simp only [amiBpfPut32, BigEndian.value, List.foldl_cons, List.foldl_nil,
    BitVec.extractLsb'_toNat, Nat.shiftRight_eq_div_pow]
  omega

section Layout

variable {m m' : ℕ → UByte} {pos fin : ℕ} {r : BpfRecord} {recs : List BpfRecord}

/-- A field of a record in a buffer. -/
theorem read_field (h : read m pos r.size = r.bytes) {off n : ℕ} (hn : off + n ≤ r.size) :
    read m (pos + off) n = (r.bytes.drop off).take n := by
  rw [← h, drop_read m pos (by omega), ← Nat.add_sub_cancel' (show n ≤ r.size - off by omega),
    read_add, List.take_left' (length_read ..)]

theorem amiBpfGet16_of_read (h : read m pos r.size = r.bytes) :
    amiBpfGet16 m (pos + 16) = amiBpfHdrlen := by
  have hsize : 16 + 2 ≤ r.size := by rw [BpfRecord.size, amiBpfHdrlen]; omega
  rw [amiBpfGet16, read_field h hsize]
  rfl

theorem amiBpfGet32_of_read (h : read m pos r.size = r.bytes) (hlen : r.data.length < 2 ^ 32) :
    amiBpfGet32 m (pos + 8) = r.data.length := by
  have hsize : 8 + 4 ≤ r.size := by rw [BpfRecord.size, amiBpfHdrlen]; omega
  have hfield : (r.bytes.drop 8).take 4 = amiBpfPut32 (BitVec.ofNat 32 r.data.length) := rfl
  rw [amiBpfGet32, read_field h hsize, hfield, value_amiBpfPut32, BitVec.toNat_ofNat,
    Nat.mod_eq_of_lt hlen]

/-- A buffer with the same bytes, perhaps moved by a number of longwords. -/
theorem Laid.congr {a : ℕ} (ha : 4 ∣ a) (hbytes : ∀ i < fin, m' i = m (a + i))
    (h : Laid m (a + pos) recs (a + fin)) : Laid m' pos recs fin := by
  induction recs generalizing pos with
  | nil =>
    simp only [Laid, bpfWordalign] at h ⊢
    omega
  | cons r rs ih =>
    obtain ⟨hread, hle, hrest⟩ := h
    refine ⟨?_, by omega, ih (Nat.add_assoc .. ▸ hrest)⟩
    rw [← hread]
    refine List.map_congr_left fun i hi ↦ ?_
    have hi := List.mem_range.mp hi
    rw [hbytes _ (by omega), Nat.add_assoc]

/-- **A record written behind others.** -/
theorem laid_put (h : Laid m pos recs fin) (hpos : 4 ∣ pos) :
    Laid (write m (bpfWordalign fin) r.bytes) pos (recs ++ [r]) (bpfWordalign fin + r.size) := by
  induction recs generalizing pos with
  | nil =>
    obtain rfl := h
    refine ⟨?_, Nat.le_refl _, ?_⟩
    · rw [← length_bytes, read_write]
    · simp only [Laid, bpfWordalign]
      omega
  | cons first rs ih =>
    obtain ⟨hread, hle, hrest⟩ := h
    have halign : fin ≤ bpfWordalign fin := by rw [bpfWordalign]; omega
    refine ⟨?_, by omega, ih hrest ?_⟩
    · rw [read_write_of_apart (.inl (by omega)), hread]
    · rw [bpfWordalign]
      omega

theorem Laid.eq_nil_of_le (h : Laid m pos recs fin) (hle : fin ≤ pos) : recs = [] := by
  cases recs with
  | nil => rfl
  | cons r rs =>
    have hsize := h.2.1
    rw [BpfRecord.size, amiBpfHdrlen] at hsize
    omega

theorem Laid.ne_nil_of_lt (h : Laid m pos recs fin) (hlt : pos < fin) : recs ≠ [] := by
  rintro rfl
  simp only [Laid, bpfWordalign] at h
  omega

/-- **The loop of a read.**  It ends behind the last record it takes. -/
theorem readExtent_eq {start holdLen len fuel : ℕ} (last : ℕ) (hpos : 4 ∣ pos)
    (hstart : start ≤ pos) (hlaid : Laid m pos recs holdLen) (hshort : holdLen ≤ 0x8000)
    (hfuel : 0 < fuel) (henough : holdLen < fuel + pos) :
    ∃ taken rest fin' pos', readExtent m start holdLen len fuel pos last = some (fin', pos') ∧
      recs = taken ++ rest ∧ Laid m pos' rest holdLen ∧
      (taken = [] ∧ fin' = last ∧ pos' = pos ∨
        taken ≠ [] ∧ pos < fin' ∧ pos' = bpfWordalign fin' ∧ Laid m pos taken fin') := by
  induction fuel generalizing pos last recs with
  | zero => omega
  | succ fuel ih =>
    rw [readExtent]
    cases recs with
    | nil =>
      have hend : ¬ pos < holdLen := fun hlt ↦ hlaid.ne_nil_of_lt hlt rfl
      exact ⟨[], [], last, pos, if_neg hend, rfl, hlaid, .inl ⟨rfl, rfl, rfl⟩⟩
    | cons r rs =>
      obtain ⟨hread, hle, hrest⟩ := id hlaid
      have hsize : r.size = 20 + r.data.length := rfl
      have hreclen : (amiBpfGet16 m (pos + 16) + amiBpfGet32 m (pos + 8)) % 2 ^ 32 = r.size := by
        rw [amiBpfGet16_of_read hread, amiBpfGet32_of_read hread (by omega)]
        exact Nat.mod_eq_of_lt (show r.size < 2 ^ 32 by omega)
      have halign : r.size ≤ bpfWordalign r.size := by rw [bpfWordalign]; omega
      rw [if_pos (show pos < holdLen by omega)]
      simp only [hreclen]
      split_ifs
      · exact ⟨[], r :: rs, last, pos, rfl, rfl, hlaid, .inl ⟨rfl, rfl, rfl⟩⟩
      · obtain ⟨taken, rest, fin', pos', hloop, hrecs, hlaid', hcases⟩ :=
          ih (pos + r.size) (show 4 ∣ pos + bpfWordalign r.size by rw [bpfWordalign]; omega)
            (by omega) hrest (by omega) (by omega)
        refine ⟨r :: taken, rest, fin', pos', hloop, by rw [hrecs, List.cons_append], hlaid',
          .inr ?_⟩
        rcases hcases with ⟨rfl, rfl, rfl⟩ | ⟨-, hlt, heq, htaken⟩
        · have hnext : pos + bpfWordalign r.size = bpfWordalign (pos + r.size) := by
            simp only [bpfWordalign]
            omega
          exact ⟨List.cons_ne_nil _ _, by omega, hnext, hread, Nat.le_refl _, hnext⟩
        · exact ⟨List.cons_ne_nil _ _, by omega, heq, hread, by omega, htaken⟩

end Layout

/-! ### What every section preserves -/

/-- A copy of some records is under way. -/
structure Copying.Copies (c : Copying) (m : ℕ → UByte) (recs : List BpfRecord) : Prop where
  ne_nil : recs ≠ []
  aligned : 4 ∣ c.src
  laid : Laid m c.src recs (c.src + c.nbytes)
  out_eq : c.out = read m c.src c.out.length
  out_le : c.out.length ≤ c.nbytes

/-- The records in the reader's buffer: those that a read is copying, and those behind them; and
the records of a copy that a discard has overtaken. -/
inductive HoldInv (hold : ℕ → UByte) (which reading : Bool) (holdPos holdLen : ℕ) :
    Option Copying → (overtaken taken held : List BpfRecord) → Prop where
  | idle {held : List BpfRecord} (hreading : reading = false) (hpos : 4 ∣ holdPos)
      (hle : holdPos ≤ holdLen) (hlaid : Laid hold holdPos held holdLen) :
      HoldInv hold which reading holdPos holdLen none [] [] held
  | copying {c : Copying} {taken held : List BpfRecord} (hreading : reading = true)
      (hwhich : c.which = which) (hcopies : c.Copies hold taken)
      (hpos : c.pos = bpfWordalign (c.src + c.nbytes)) (hlt : holdPos < holdLen)
      (hlaid : Laid hold c.pos held holdLen) :
      HoldInv hold which reading holdPos holdLen (some c) [] taken held
  /-- The records were discarded under the copy, which goes on. -/
  | late {c : Copying} {overtaken : List BpfRecord} (hreading : reading = true)
      (hwhich : c.which = which) (hcopies : c.Copies hold overtaken) (hlen : holdLen = 0)
      (hpos : holdPos = 0) :
      HoldInv hold which reading holdPos holdLen (some c) overtaken [] []

/-- What a channel and its reader have in the buffer that is held. -/
abbrev AmiBpfChan.Holds (ch : AmiBpfChan) :
    Option Copying → (overtaken taken held : List BpfRecord) → Prop :=
  HoldInv ch.hold (!ch.storeBuf) ch.reading ch.holdPos ch.holdLen

/-- The log and the records it is about: those of the reads before the last discard and since, of
the copy under way, and in the two buffers. -/
structure LogInv (past stored : List BpfRecord) (results : List (List UByte))
    (old new : List (List BpfRecord)) (overtaken taken held fresh : List BpfRecord) : Prop where
  results : List.Forall₂ ReadsAs results (old ++ new)
  past : (old.flatten ++ overtaken).Sublist past
  /-- No other read has ended since a discard has overtaken one. -/
  alone : overtaken ≠ [] → new = []
  stored : stored = new.flatten ++ (taken ++ (held ++ fresh))

/-- What holds between any two sections. -/
structure ChanInv (ch : AmiBpfChan) (reader : Option Copying) (past stored : List BpfRecord)
    (results : List (List UByte)) (old new : List (List BpfRecord))
    (overtaken taken held fresh : List BpfRecord) : Prop where
  hold : ch.Holds reader overtaken taken held
  store : Laid ch.store 0 fresh ch.storeLen
  storeLen_le : ch.storeLen ≤ ch.blen
  holdLen_le : ch.holdLen ≤ ch.blen
  log : LogInv past stored results old new overtaken taken held fresh

/-- What holds between any two sections, for some division of the records. -/
def ChanSys.Inv (s : ChanSys) : Prop :=
  ∃ old new overtaken taken held fresh,
    ChanInv s.ch s.reader s.past s.stored s.results old new overtaken taken held fresh

section Copies

variable {c : Copying} {m : ℕ → UByte} {recs : List BpfRecord}

theorem Copying.Copies.push (h : c.Copies m recs) (hlt : c.out.length < c.nbytes) :
    (c.push (m (c.src + c.out.length))).Copies m recs := by
  have hlen : (c.push (m (c.src + c.out.length))).out.length = c.out.length + 1 := by
    simp [Copying.push]
  refine ⟨h.ne_nil, h.aligned, h.laid, ?_, hlen ▸ hlt⟩
  rw [hlen, read_add]
  exact congrArg (· ++ [m (c.src + c.out.length)]) h.out_eq

/-- A copy that is complete is a run of whole records. -/
theorem Copying.Copies.readsAs (h : c.Copies m recs) (hdone : ¬ c.out.length < c.nbytes) :
    ReadsAs c.out recs := by
  have hlen : c.out.length = c.nbytes := Nat.le_antisymm h.out_le (Nat.le_of_not_lt hdone)
  refine ⟨h.ne_nil, Laid.congr h.aligned (fun i hi ↦ ?_) (hlen ▸ h.laid)⟩
  rw [h.out_eq]
  simp [Memory.read, hi]

end Copies

section Log

variable {past stored : List BpfRecord} {results : List (List UByte)}
  {old new : List (List BpfRecord)} {overtaken taken held fresh : List BpfRecord}

/-- The buffers discarded: what was being copied is overtaken, or was before. -/
theorem LogInv.discard (h : LogInv past stored results old new overtaken taken held fresh)
    (hone : overtaken = [] ∨ taken = []) :
    LogInv (past ++ stored) [] results (old ++ new) [] (overtaken ++ taken) [] [] [] where
  results := by rw [List.append_nil]; exact h.results
  past := by
    by_cases hovertaken : overtaken = []
    · have hpast : old.flatten.Sublist past := by simpa [hovertaken] using h.past
      have hstored : (new.flatten ++ taken).Sublist stored := by
        rw [h.stored, ← List.append_assoc]
        exact List.sublist_append_left _ _
      rw [hovertaken, List.flatten_append, List.nil_append, List.append_assoc]
      exact hpast.append hstored
    · rw [h.alone hovertaken, hone.resolve_left hovertaken, List.append_nil, List.append_nil]
      exact h.past.trans (List.sublist_append_left _ _)
  alone _ := rfl
  stored := rfl

/-- A read ends. -/
theorem LogInv.finished (h : LogInv past stored results old new [] taken held fresh)
    {out : List UByte} (hout : ReadsAs out taken) :
    LogInv past stored (results ++ [out]) old (new ++ [taken]) [] [] held fresh where
  results := by
    rw [← List.append_assoc]
    exact List.rel_append h.results (.cons hout .nil)
  past := h.past
  alone hne := absurd rfl hne
  stored := by simp [h.stored]

/-- A read that a discard has overtaken ends. -/
theorem LogInv.finishedLate (h : LogInv past stored results old new overtaken [] [] fresh)
    {out : List UByte} (hout : ReadsAs out overtaken) :
    LogInv past stored (results ++ [out]) (old ++ [overtaken]) [] [] [] [] fresh := by
  obtain rfl := h.alone hout.1
  refine ⟨?_, ?_, fun hne ↦ absurd rfl hne, h.stored⟩
  · have hresults := h.results
    rw [List.append_nil] at hresults ⊢
    exact List.rel_append hresults (.cons hout .nil)
  · simpa using h.past

end Log

section Steps

variable {ch : AmiBpfChan} {reader : Option Copying} {past stored : List BpfRecord}
  {results : List (List UByte)} {old new : List (List BpfRecord)}
  {overtaken taken held fresh : List BpfRecord}

theorem holdPos_le_of_holds (h : ch.Holds reader overtaken taken held) :
    ch.holdPos ≤ ch.holdLen := by
  cases h with
  | idle _ _ hle _ => exact hle
  | copying _ _ _ _ hlt _ => exact Nat.le_of_lt hlt
  | late _ _ _ hlen hpos => rw [hlen, hpos]

/-- Without a copy under way, all records of the reader's buffer are still to be read. -/
theorem holds_of_not_reading (h : ch.Holds reader overtaken taken held)
    (hreading : ch.reading = false) :
    reader = none ∧ overtaken = [] ∧ taken = [] ∧ 4 ∣ ch.holdPos ∧
      Laid ch.hold ch.holdPos held ch.holdLen := by
  cases h with
  | idle _ hpos _ hlaid => exact ⟨rfl, rfl, rfl, hpos, hlaid⟩
  | copying hr => exact absurd (hr.symm.trans hreading) Bool.noConfusion
  | late hr => exact absurd (hr.symm.trans hreading) Bool.noConfusion

variable (h : ChanInv ch reader past stored results old new overtaken taken held fresh)
include h

/-- A change of the counters, the filter or the interface. -/
theorem ChanInv.other (iface : Option ℕ) (filter : Option (List Insn)) (recv drop : ULong) :
    ChanInv { ch with iface := iface, filter := filter, recvCount := recv, dropCount := drop }
      reader past stored results old new overtaken taken held fresh :=
  ⟨h.hold, h.store, h.storeLen_le, h.holdLen_le, h.log⟩

/-- **A record stored** behind the others. -/
theorem ChanInv.put {r : BpfRecord} {curlen : ℕ} (hcurlen : curlen = bpfWordalign ch.storeLen)
    (hroom : curlen + r.size ≤ ch.blen) :
    ChanInv (ch.put curlen r.size r) reader past (stored ++ [r]) results old new overtaken taken
      held (fresh ++ [r]) where
  hold := by
    have hhold : (ch.put curlen r.size r).hold = ch.hold :=
      Function.update_of_ne (Bool.not_ne_self _) _ _
    rw [AmiBpfChan.Holds, hhold]
    exact h.hold
  store := by
    have hstore : (ch.put curlen r.size r).store = write ch.store curlen r.bytes :=
      Function.update_self ..
    have hlen : (ch.put curlen r.size r).storeLen = curlen + r.size := rfl
    rw [hstore, hlen, hcurlen]
    exact laid_put h.store (Nat.dvd_zero 4)
  storeLen_le := hroom
  holdLen_le := h.holdLen_le
  log := ⟨h.log.results, h.log.past, h.log.alone, by simp [h.log.stored]⟩

/-- **The buffers change places** when the reader's is empty. -/
theorem ChanInv.rotate (hreading : ch.reading = false) (hempty : ch.holdLen = 0) :
    ChanInv (amiBpfRotate ch) reader past stored results old new [] [] fresh [] := by
  have hle := holdPos_le_of_holds h.hold
  obtain ⟨rfl, rfl, rfl, -, hlaid⟩ := holds_of_not_reading h.hold hreading
  obtain rfl := hlaid.eq_nil_of_le (by omega)
  have hrotated : (amiBpfRotate ch).hold = ch.store := congrArg ch.buf (Bool.not_not _)
  refine ⟨.idle hreading (Nat.dvd_zero 4) (Nat.zero_le _) (hrotated ▸ h.store), laid_nil _,
    Nat.zero_le _, h.storeLen_le, h.log.results, h.log.past, h.log.alone, ?_⟩
  simpa using h.log.stored

/-- **The buffers discarded.**  A copy under way goes on. -/
theorem ChanInv.discard :
    ChanInv ch.discard reader (past ++ stored) [] results (old ++ new) [] (overtaken ++ taken) [] []
      [] := by
  have hlog := h.log
  obtain ⟨hhold, -⟩ := h
  cases hhold with
  | idle hr =>
    exact ⟨.idle hr (Nat.dvd_zero 4) (Nat.zero_le _) (laid_nil _), laid_nil _, Nat.zero_le _,
      Nat.zero_le _, hlog.discard (.inl rfl)⟩
  | copying hr hw hc =>
    exact ⟨.late hr hw hc rfl rfl, laid_nil _, Nat.zero_le _, Nat.zero_le _,
      hlog.discard (.inl rfl)⟩
  | late hr hw hc =>
    refine ⟨.late hr hw ?_ rfl rfl, laid_nil _, Nat.zero_le _, Nat.zero_le _,
      hlog.discard (.inr rfl)⟩
    rw [List.append_nil]
    exact hc

/-- A frame that the filter wants. -/
theorem ChanInv.wanted {r : BpfRecord} (hsize : r.size ≤ ch.blen) :
    ∃ overtaken' taken' held' fresh', ChanInv (captureWanted ch r.size r).1 reader past
      (stored ++ (captureWanted ch r.size r).2.toList) results old new overtaken' taken' held'
      fresh' := by
  rw [captureWanted]
  split_ifs with hfull hfree
  · -- the new record is the first one in the buffer the reader has given back
    have hrotated := h.rotate hfree.2 hfree.1
    exact ⟨_, _, _, _, hrotated.put (show 0 = bpfWordalign 0 from rfl) (by rwa [Nat.zero_add])⟩
  · rw [Option.toList_none, List.append_nil]
    exact ⟨_, _, _, _, h.other ch.iface ch.filter ch.recvCount (ch.dropCount + 1)⟩
  · exact ⟨_, _, _, _, h.put rfl (Nat.le_of_not_lt hfull)⟩

theorem ChanInv.turned (hreading : ch.reading = false) :
    ch.turned.reading = false ∧ ∃ held' fresh',
      ChanInv ch.turned reader past stored results old new [] [] held' fresh' := by
  obtain ⟨-, rfl, rfl, -, -⟩ := holds_of_not_reading h.hold hreading
  rw [AmiBpfChan.turned]
  split_ifs with hempty
  · exact ⟨hreading, _, _, h.rotate hreading hempty.1⟩
  · exact ⟨hreading, _, _, h⟩

/-- A read of the buffer that is held. -/
theorem ChanInv.readHeld (hreading : ch.reading = false) (len : ℕ) :
    readHeld ch len = some (ch, .wait) ∨ readHeld ch len = some (ch, .einval) ∨
    ∃ taken' held' src nbytes pos, readHeld ch len =
        some ({ ch with reading := true }, .copy src nbytes pos) ∧
      ChanInv { ch with reading := true } (some ⟨!ch.storeBuf, src, nbytes, pos, []⟩) past stored
        results old new [] taken' held' fresh := by
  rw [Bpf.readHeld]
  split_ifs with hempty
  · exact .inl rfl
  have hle := holdPos_le_of_holds h.hold
  obtain ⟨rfl, rfl, rfl, haligned, hlaid⟩ := holds_of_not_reading h.hold hreading
  obtain ⟨taken', rest, fin, pos, hloop, rfl, hrest, hcases⟩ :=
    readExtent_eq ch.holdPos haligned (Nat.le_refl _) hlaid (h.holdLen_le.trans ch.blen_le)
      (Nat.succ_pos ch.holdLen) (by omega)
  dsimp only
  rw [hloop, Option.map_some]
  rcases hcases with ⟨rfl, rfl, -⟩ | ⟨hne, hlt, rfl, htaken⟩
  · exact .inr (.inl (by rw [if_pos rfl]))
  · refine .inr (.inr ⟨taken', rest, _, _, _, by rw [if_neg (by omega)], ?_, h.store,
      h.storeLen_le, h.holdLen_le, h.log.results, h.log.past, h.log.alone, ?_⟩)
    · have hend : ch.holdPos + (fin - ch.holdPos) = fin := by omega
      have hsome : ch.holdPos < ch.holdLen := by
        by_contra hnone
        exact hne (List.append_eq_nil_iff.mp (hlaid.eq_nil_of_le (Nat.le_of_not_lt hnone))).1
      refine .copying rfl rfl ⟨hne, haligned, ?_, rfl, Nat.zero_le _⟩ ?_ hsome hrest
      · rw [hend]
        exact htaken
      · rw [hend]
    · simpa using h.log.stored

end Steps

/-! ### The sections -/

theorem length_amiBpfViewCopy (view : View) (len : ULong) :
    (amiBpfViewCopy view 0 len).length = len.toNat := by
  rw [amiBpfViewCopy_eq]
  simp only [List.length_append, List.length_take, List.length_drop, List.length_replicate]
  omega

/-- A captured record has the length that room was made for. -/
theorem size_captureRecord {blen : ℕ} (hge : 32 ≤ blen) (hle : blen ≤ 0x8000) (slen : ULong)
    (view : TapView) (sec usec : ULong) :
    (captureRecord view.toView sec usec (captureLens blen slen view.toView).1).size =
        (captureLens blen slen view.toView).2 ∧ (captureLens blen slen view.toView).2 ≤ blen := by
  have hsize (n : ℕ) (hn : n < 2 ^ 32) :
      (captureRecord view.toView sec usec n).size = amiBpfHdrlen + n := by
    rw [BpfRecord.size, captureRecord, length_amiBpfViewCopy, BitVec.toNat_ofNat,
      Nat.mod_eq_of_lt hn]
  have hcap := view.caplen_lt
  simp only [captureLens]
  generalize (if slen < view.wirelen then slen else view.wirelen) = cut
  have hcut : (if cut > view.caplen then view.caplen else cut).toNat ≤ view.caplen.toNat := by
    split_ifs with h
    · exact Nat.le_refl _
    · exact Nat.le_of_not_lt h
  generalize (if cut > view.caplen then view.caplen else cut).toNat = caplen at hcut
  have hhdr : amiBpfHdrlen = 20 := rfl
  rw [Nat.mod_eq_of_lt (by omega)]
  split_ifs with h
  · exact ⟨by rw [hsize _ (by omega)]; omega, Nat.le_refl _⟩
  · exact ⟨hsize _ (by omega), by omega⟩

section System

variable {s : ChanSys} {old new : List (List BpfRecord)}
  {overtaken taken held fresh : List BpfRecord}
  (h : ChanInv s.ch s.reader s.past s.stored s.results old new overtaken taken held fresh)

include h

/-- The end of a read, whose records are behind it now. -/
theorem ChanInv.finished {c : Copying} (hc : s.reader = some c)
    (hdone : ¬ c.out.length < c.nbytes) : (s.finished c).Inv := by
  obtain ⟨hhold, hstore, hle, hle', hlog⟩ := h
  rw [hc] at hhold
  have hle'' : (amiBpfReadEnd s.ch c.pos).holdLen ≤ s.ch.blen := by
    rw [amiBpfReadEnd]
    split_ifs
    · exact Nat.zero_le _
    · exact hle'
  cases hhold with
  | copying hr hw hcopies hp hlt hlaid =>
    refine ⟨old, new ++ [taken], [], [], held, fresh, ?_, hstore, hle, hle'',
      hlog.finished (hcopies.readsAs hdone)⟩
    rw [ChanSys.finished, amiBpfReadEnd]
    dsimp only
    split_ifs with hend
    · obtain rfl := hlaid.eq_nil_of_le hend
      exact .idle rfl (Nat.dvd_zero 4) (Nat.zero_le _) (laid_nil _)
    · refine .idle rfl ?_ (Nat.le_of_not_le hend) hlaid
      rw [hp]
      exact Nat.dvd_mul_left 4 _
  | late hr hw hcopies hlen hpos =>
    refine ⟨old ++ [overtaken], [], [], [], [], fresh, ?_, hstore, hle, hle'',
      hlog.finishedLate (hcopies.readsAs hdone)⟩
    rw [ChanSys.finished, amiBpfReadEnd, hlen]
    exact .idle rfl (Nat.dvd_zero 4) (Nat.zero_le _) (laid_nil _)

theorem ChanInv.capture (ifp : ℕ) (view : TapView) (sec usec : ULong) :
    ∃ overtaken' taken' held' fresh',
      ChanInv (amiBpfCapture s.ch ifp view.toView sec usec).1 s.reader s.past
        (s.stored ++ (amiBpfCapture s.ch ifp view.toView sec usec).2.toList) s.results old new
        overtaken' taken' held' fresh' := by
  have hcounted {recv : ULong} := h.other s.ch.iface s.ch.filter recv s.ch.dropCount
  have hsame {recv : ULong} : ChanInv { s.ch with recvCount := recv } s.reader s.past
      (s.stored ++ (none : Option BpfRecord).toList) s.results old new overtaken taken held
      fresh := by
    rw [Option.toList_none, List.append_nil]
    exact hcounted
  rw [amiBpfCapture]
  split_ifs
  · exact ⟨_, _, _, _, hsame⟩
  · dsimp only
    split
    · rename_i slen _
      split_ifs
      · exact ⟨_, _, _, _, hsame⟩
      · obtain ⟨hsize, hle⟩ := size_captureRecord s.ch.blen_ge s.ch.blen_le slen view sec usec
        rw [← hsize] at hle ⊢
        exact hcounted.wanted hle
    · exact ⟨_, _, _, _, hsame⟩

theorem ChanInv.look {len : ℤ} {r : AmiBpfChan × ReadAnswer}
    (hlook : amiBpfReadLook s.ch len = some r) : (s.answered r).Inv := by
  rw [amiBpfReadLook] at hlook
  split_ifs at hlook with hlen hreading
  · obtain rfl := Option.some.inj hlook
    exact ⟨_, _, _, _, _, _, h⟩
  · obtain rfl := Option.some.inj hlook
    exact ⟨_, _, _, _, _, _, h⟩
  obtain ⟨hidle, held', fresh', hturned⟩ := h.turned (Bool.eq_false_of_not_eq_true hreading)
  rcases hturned.readHeld hidle len.toNat with
    hread | hread | ⟨taken', held'', src, nbytes, pos, hread, hcopy⟩
  · obtain rfl := Option.some.inj (hread.symm.trans hlook)
    exact ⟨_, _, _, _, _, _, hturned⟩
  · obtain rfl := Option.some.inj (hread.symm.trans hlook)
    exact ⟨_, _, _, _, _, _, hturned⟩
  · obtain rfl := Option.some.inj (hread.symm.trans hlook)
    exact ⟨_, _, _, _, _, _, hcopy⟩

end System

/-- **What every section preserves**, and every byte of a copy. -/
theorem chanSys_inv {s s' : ChanSys} {e : ChanEvent} (h : s.Inv) (hstep : chanStep s e = some s') :
    s'.Inv := by
  obtain ⟨old, new, overtaken, taken, held, fresh, h⟩ := h
  cases e with
  | capture ifp view sec usec =>
    obtain rfl := Option.some.inj hstep
    exact ⟨_, _, h.capture ifp view sec usec⟩
  | look len =>
    obtain ⟨r, hlook, rfl⟩ := Option.map_eq_some_iff.mp hstep
    exact h.look hlook
  | copyByte =>
    obtain ⟨c, hc, hstep⟩ := Option.bind_eq_some_iff.mp hstep
    split_ifs at hstep with hlt
    obtain rfl := Option.some.inj hstep
    obtain ⟨hhold, hstore, hle, hle', hlog⟩ := h
    rw [hc] at hhold
    refine ⟨old, new, overtaken, taken, held, fresh, ?_, hstore, hle, hle', hlog⟩
    cases hhold with
    | copying hr hw hcopies hp hpos hlaid =>
      rw [hw]
      exact .copying hr hw (hcopies.push hlt) hp hpos hlaid
    | late hr hw hcopies hlen hpos =>
      rw [hw]
      exact .late hr hw (hcopies.push hlt) hlen hpos
  | readEnd =>
    obtain ⟨c, hc, hstep⟩ := Option.bind_eq_some_iff.mp hstep
    split_ifs at hstep with hlt
    obtain rfl := Option.some.inj hstep
    exact h.finished hc hlt
  | flush =>
    obtain rfl := Option.some.inj hstep
    exact ⟨_, _, _, _, _, _, h.discard.other s.ch.iface s.ch.filter 0 0⟩
  | setf prog =>
    obtain rfl := Option.some.inj hstep
    rw [amiBpfIoctlSetf]
    split
    · exact ⟨_, _, _, _, _, _, h⟩
    · exact ⟨_, _, _, _, _, _, h.discard.other s.ch.iface _ s.ch.recvCount s.ch.dropCount⟩
  | bind iface =>
    obtain rfl := Option.some.inj hstep
    exact ⟨_, _, _, _, _, _, h.other iface s.ch.filter s.ch.recvCount s.ch.dropCount⟩

theorem ChanSys.Initial.inv {s : ChanSys} (h : s.Initial) : s.Inv := by
  obtain ⟨hstore, hhold, hpos, hreading, hreader, hpast, hstored, hresults⟩ := h
  refine ⟨[], [], [], [], [], [], ?_, ?_, ?_, ?_, ?_, ?_, fun _ ↦ rfl, hstored⟩
  · rw [hreader]
    refine .idle hreading (hpos ▸ Nat.dvd_zero 4) (hpos ▸ Nat.zero_le _) ?_
    rw [hpos, hhold]
    exact laid_nil _
  · rw [hstore]
    exact laid_nil _
  · rw [hstore]
    exact Nat.zero_le _
  · rw [hhold]
    exact Nat.zero_le _
  · rw [hresults]
    exact .nil
  · exact List.nil_sublist _

/-- **Captures are read in order.**  In every interleaving of captures, reads, flushes and new
filters, what the reads have returned are runs of whole records.  Those of records stored before
the buffers were last discarded come first, in the order of the captures and each record once, a
read that the discard has overtaken among them; the others, one behind the other, are the first of
the records stored since, and nothing of these is missing once the channel says that nothing waits.
A copy that is complete is a run of whole records also when the buffers were discarded under it, and
both buffers stay inside their allocation. -/
theorem chan_reads_in_order {s : ChanSys} (h : Reachable chanStep ChanSys.Initial s) :
    (∃ old new unread, List.Forall₂ ReadsAs s.results (old ++ new) ∧ old.flatten.Sublist s.past ∧
      s.stored = new.flatten ++ unread ∧ (amiBpfBuffered s.ch = 0 → unread = [])) ∧
    (∀ c ∈ s.reader, c.out.length = c.nbytes → ∃ recs, ReadsAs c.out recs) ∧
    s.ch.storeLen ≤ s.ch.blen ∧ s.ch.holdPos ≤ s.ch.holdLen ∧ s.ch.holdLen ≤ s.ch.blen := by
  have hinv : s.Inv := h.invariant (fun _ ↦ ChanSys.Initial.inv) fun _ _ _ ↦ chanSys_inv
  obtain ⟨old, new, overtaken, taken, held, fresh, hhold, hstore, hstoreLen, hholdLen, hlog⟩ := hinv
  refine ⟨⟨old, new, taken ++ (held ++ fresh), hlog.results,
    (List.sublist_append_left _ _).trans hlog.past, hlog.stored, fun hbuffered ↦ ?_⟩,
    fun c hc hdone ↦ ?_, hstoreLen, holdPos_le_of_holds hhold, hholdLen⟩
  · rw [amiBpfBuffered] at hbuffered
    rw [hstore.eq_nil_of_le (by omega)]
    generalize s.reader = reader at hhold
    cases hhold with
    | idle _ _ _ hlaid =>
      rw [hlaid.eq_nil_of_le (by omega)]
      rfl
    | copying _ _ _ _ hlt _ => omega
    | late => rfl
  · rw [Option.mem_def.mp hc] at hhold
    cases hhold with
    | copying _ _ hcopies _ _ _ => exact ⟨taken, hcopies.readsAs (by omega)⟩
    | late _ _ hcopies _ _ => exact ⟨_, hcopies.readsAs (by omega)⟩

/-- A channel with buffers of 64 bytes that takes every frame. -/
def smallChan : AmiBpfChan where
  iface := some 0
  blen := 64
  buf _ _ := 0xEE
  storeBuf := false
  storeLen := 0
  holdLen := 0
  holdPos := 0
  reading := false
  filter := none
  recvCount := 0
  dropCount := 0
  blen_ge := by decide
  blen_le := by decide

/-- A frame of one byte. -/
def oneByteView : TapView where
  toView := .divided [[0xAA]] 1 (by decide) (by decide)
  caplen_lt := by decide

/-- Three frames, the third of which goes to the other buffer; the first two are read while the
buffers are flushed and a fourth frame comes. -/
theorem chan_reads_in_order_flushed : ∃ s, Reachable chanStep ChanSys.Initial s ∧
    s.results.length = 1 ∧ s.past.length = 3 ∧ s.stored.length = 1 ∧
    ∃ old new unread, List.Forall₂ ReadsAs s.results (old ++ new) ∧ old.flatten.Sublist s.past ∧
      s.stored = new.flatten ++ unread := by
  have hrun : ((run chanStep ⟨smallChan, none, [], [], []⟩
      ([.capture 0 oneByteView 1 0, .capture 0 oneByteView 2 0, .capture 0 oneByteView 3 0,
        .look 64, .flush, .capture 0 oneByteView 4 0] ++ List.replicate 45 .copyByte ++
          [.readEnd])).any fun s ↦
        decide (s.results.length = 1 ∧ s.past.length = 3 ∧ s.stored.length = 1)) = true := by
    decide +kernel
  obtain ⟨s, hs, hlen⟩ := (Option.any_eq_true _ _).mp hrun
  have hreach : Reachable chanStep ChanSys.Initial s :=
    ⟨_, _, ⟨rfl, rfl, rfl, rfl, rfl, rfl, rfl, rfl⟩, hs⟩
  obtain ⟨hone, hthree, hfresh⟩ := of_decide_eq_true hlen
  obtain ⟨old, new, unread, hreads, hpast, hstored, -⟩ := (chan_reads_in_order hreach).1
  exact ⟨s, hreach, hone, hthree, hfresh, old, new, unread, hreads, hpast, hstored⟩

end AmiNetXDuo.Bpf
