import AmiNetXDuo.Net68k.Checksum
import AmiNetXDuo.Lib.Memory
import AmiNetXDuo.Lib.WordSum

/-!
# The checksum of a packet of several buffers

`n68k_ip_checksum_compute` walks the buffers of a packet.  In each it sums the whole longwords; a
rest of two bytes at a chain boundary belongs to the buffer it stands in, and the rest of the data,
one to three bytes, is added behind the walk, with a zero written behind an odd last byte.

The walk decides that it is at a chain boundary by `data_length > 0` and by the next buffer alone.
Where the data ends inside a buffer that has a next one, the rest of the data is therefore looked
for in that next buffer.  The sums of the buffers are added up in 32 bits, without the carries.

## Main definitions

* `PacketBuffer` : the part of a packet in one buffer.
* `checksumWalk`, `checksumTail`, `n68kIpChecksumChain` : the walk, the rest, the checksum.
* `EndsWell` : where the data may end for the walk to find all of it.
* `walkSum`, `KeepsCarries` : what the walk adds up, and that it stays below `2 ^ 32`.
* `Apart` : buffers that do not touch.

## Main results

* `checksumTail_walk` : the accumulator behind the walk and the only byte written.
* `checksumTail_walk_stray` : data that ends elsewhere.
* `n68kIpChecksumChain_eq` : where the data ends well, the value is right exactly when no carry is
  lost; where it ends elsewhere, there is data with a wrong value.
* `n68kIpChecksumChain_reads_next` : data ending inside the first of two buffers.
-/

namespace AmiNetXDuo.OnesComplement

/-- A summand may be folded first. -/
theorem onesSum_add_congr {a b : Nat} (h : onesSum a = onesSum b) (k : Nat) :
    onesSum (a + k) = onesSum (b + k) := by
  unfold onesSum at h ⊢
  split_ifs at h ⊢ <;> omega

@[simp] theorem onesSum_onesSum (n : Nat) : onesSum (onesSum n) = onesSum n :=
  onesSum_of_le (onesSum_le n)

theorem onesSum_add_onesSum (a b : Nat) : onesSum (a + onesSum b) = onesSum (a + b) := by
  rw [Nat.add_comm, Nat.add_comm a]
  exact onesSum_add_congr (onesSum_onesSum b) a

theorem onesSum_mod (n : Nat) : onesSum n % 65535 = n % 65535 := by
  unfold onesSum
  split_ifs <;> omega

/-- Two sums that agree modulo `65535` and on being zero fold alike. -/
theorem onesSum_eq_of_modEq_of_zero {a b : Nat} (h : a ≡ b [MOD 65535]) (hzero : a = 0 ↔ b = 0) :
    onesSum a = onesSum b := by
  by_cases ha : a = 0
  · rw [ha, hzero.mp ha]
  · exact onesSum_eq_of_modEq ha (mt hzero.mpr ha) h

/-- **Lost carries.**  A sum whose first part is folded and that is then cut to 32 bits folds to
what the whole sum folds to exactly when nothing was cut off: fewer than 65535 carries can get
lost. -/
theorem onesSum_cut_iff {p w : Nat} (hp : p < 2 ^ 33) (hw : 2 * w ≤ 65535 * 2 ^ 32) :
    onesSum ((onesSum (p % 2 ^ 32) + w) % 2 ^ 32) = onesSum (p + w) ↔
      p < 2 ^ 32 ∧ onesSum p + w < 2 ^ 32 := by
  constructor
  · intro h
    have hmod := congrArg (· % 65535) h
    have hstart := onesSum_mod (p % 2 ^ 32)
    have hle := onesSum_le (p % 2 ^ 32)
    simp only [onesSum_mod] at hmod
    have hsmall : p < 2 ^ 32 := by omega
    rw [Nat.mod_eq_of_lt hsmall] at hmod hstart hle
    exact ⟨hsmall, by omega⟩
  · rintro ⟨hsmall, hsum⟩
    rw [Nat.mod_eq_of_lt hsmall, Nat.mod_eq_of_lt hsum, Nat.add_comm, onesSum_add_onesSum,
      Nat.add_comm]

/-- A byte string of zeros. -/
theorem wordSum_eq_zero {l : List (BitVec 8)} (h : ∀ b ∈ l, b = 0) : wordSum l = 0 := by
  induction l using wordSum.induct with
  | case1 => rfl
  | case2 b => rw [wordSum, h b (by simp)]; rfl
  | case3 a b bytes ih =>
      rw [wordSum, h a (by simp), h b (by simp), ih fun c hc ↦ h c (by simp [hc])]
      rfl

end AmiNetXDuo.OnesComplement

namespace AmiNetXDuo.Net68k

open OnesComplement

/-! ### The walk -/

/-- The bytes of a packet in one buffer, from `nx_packet_prepend_ptr` up to
`nx_packet_append_ptr`. -/
structure PacketBuffer where
  prepend : Nat
  append : Nat
  nonnull : 0 < prepend
  aligned : prepend % 4 = 0
  ordered : prepend ≤ append
  inMemory : append < 2 ^ 32

/-- `packet_size`. -/
def PacketBuffer.size (b : PacketBuffer) : Nat := b.append - b.prepend

/-- The bytes of a packet. -/
def chainBytes (m : Mem) (bufs : List PacketBuffer) : List UByte :=
  bufs.flatMap fun b ↦ Memory.read m b.prepend b.size

/-- The variables of the walk. -/
structure ChecksumWalk where
  checksum : ULong
  longPtr : Nat
  dataLength : ULong
deriving DecidableEq

/-- The longwords of one buffer. -/
def bufferWords (m : Mem) (b : PacketBuffer) (s : ChecksumWalk) : ChecksumWalk :=
  let endPtr :=
    if b.size < s.dataLength.toNat then b.append - b.append % 4
    else b.prepend + s.dataLength.toNat - 3
  if b.prepend < endPtr then
    let consumed := endPtr + 3 - (endPtr + 3) % 4 - b.prepend
    let words := (endPtr - b.prepend + 3) / 4
    { checksum := s.checksum + n68kFold (n68kSumLongwords m b.prepend words)
      longPtr := b.prepend + 4 * words
      dataLength := s.dataLength - BitVec.ofNat 32 consumed }
  else { s with longPtr := b.prepend }

/-- Two bytes left over at a chain boundary. -/
def boundaryWord (m : Mem) (b : PacketBuffer) (s : ChecksumWalk) : ChecksumWalk :=
  if b.append % 4 = 2 then
    { s with checksum := s.checksum + rd16 m s.longPtr, dataLength := s.dataLength - 2 }
  else s

/-- The loop over the buffers. -/
def checksumWalk (m : Mem) : List PacketBuffer → ChecksumWalk → ChecksumWalk
  | [], s => s
  | b :: rest, s =>
      if (bufferWords m b s).dataLength ≠ 0 ∧ rest ≠ [] then
        checksumWalk m rest (boundaryWord m b (bufferWords m b s))
      else bufferWords m b s

/-- The one, two or three bytes left, with the zero written behind an odd one. -/
def checksumTail (m : Mem) (s : ChecksumWalk) : ULong × Mem :=
  match s.dataLength.toNat with
  | 0 => (s.checksum, m)
  | 1 =>
      let m' := Function.update m (s.longPtr + 1) 0
      (s.checksum + rd16 m' s.longPtr, m')
  | 3 =>
      let m' := Function.update m (s.longPtr + 2 + 1) 0
      (s.checksum + rd16 m s.longPtr + rd16 m' (s.longPtr + 2), m')
  | _ => (s.checksum + rd16 m s.longPtr, m)

/-- The protocols with a pseudo header. -/
def HasPseudoHeader (protocol : Nat) : Prop :=
  protocol = protocolUdp ∨ protocol = protocolIcmpv6 ∨ protocol = protocolTcp

instance (protocol : Nat) : Decidable (HasPseudoHeader protocol) :=
  inferInstanceAs (Decidable (_ ∨ _ ∨ _))

/-- `n68k_ip_checksum_compute` on a packet of any number of buffers, with the memory it leaves. -/
def n68kIpChecksumChain (m : Mem) (bufs : List PacketBuffer) (ipVersion protocol : Nat)
    (dataLength : ULong) (src dst : List ULong) : UWord × Mem :=
  let checksum : ULong :=
    if HasPseudoHeader protocol then
      n68kFold (pseudoHeader ipVersion protocol dataLength.toNat src dst)
    else 0
  let tail := checksumTail m (checksumWalk m bufs ⟨checksum, 0, dataLength⟩)
  ((n68kFold tail.1).setWidth 16, tail.2)

/-! ### What the checksum is to be -/

/-- The sum of the pseudo header of protocols that have one. -/
def pseudoSum (ipVersion protocol dataLength : Nat) (src dst : List ULong) : Nat :=
  if HasPseudoHeader protocol then pseudoHeaderSum ipVersion protocol dataLength src dst else 0

/-- The one's-complement sum of the pseudo header, where the protocol has one, and the data. -/
def internetSum (ipVersion protocol : Nat) (data : List UByte) (src dst : List ULong) : Nat :=
  onesSum (pseudoSum ipVersion protocol data.length src dst + wordSum data)

/-- The address behind the last of `n` bytes of data. -/
def endAddress : List PacketBuffer → Nat → Nat
  | [], _ => 0
  | b :: rest, n => if n ≤ b.size then b.prepend + n else endAddress rest (n - b.size)

/-- **Where the data may end.**  In the last buffer anywhere; in a buffer with a next one behind a
whole longword, or two bytes further if the buffer's own end stands so. -/
def EndsWell : List PacketBuffer → Nat → Prop
  | [], _ => True
  | [_], _ => True
  | b :: b' :: rest, n =>
      if n ≤ b.size then n % 4 = 0 ∨ n % 4 = 2 ∧ b.size % 4 = 2
      else EndsWell (b' :: rest) (n - b.size)

/-- What the walk adds up: the longwords of each buffer, folded, and the rest of the buffer. -/
def walkSum (m : Mem) : List PacketBuffer → Nat → Nat
  | [], _ => 0
  | b :: rest, n =>
      onesSum (wordSum (Memory.read m b.prepend (4 * (min n b.size / 4)))) +
        wordSum (Memory.read m (b.prepend + 4 * (min n b.size / 4)) (min n b.size % 4)) +
        walkSum m rest (n - b.size)

/-- **No carry is lost**: neither the pseudo header nor what the walk adds up to it reaches
`2 ^ 32`. -/
def KeepsCarries (m : Mem) (bufs : List PacketBuffer) (ipVersion protocol dataLength : Nat)
    (src dst : List ULong) : Prop :=
  pseudoSum ipVersion protocol dataLength src dst < 2 ^ 32 ∧
    onesSum (pseudoSum ipVersion protocol dataLength src dst) + walkSum m bufs dataLength < 2 ^ 32

instance decidableEndsWell : ∀ bufs n, Decidable (EndsWell bufs n)
  | [], _ => isTrue trivial
  | [_], _ => isTrue trivial
  | b :: b' :: rest, n =>
      have := decidableEndsWell (b' :: rest) (n - b.size)
      inferInstanceAs (Decidable (if n ≤ b.size then _ else _))

/-! ### One buffer -/

/-- Longwords count as the words of their bytes. -/
theorem longSum_modEq_read (p : Mem) (i n : Nat) :
    longSum p i n ≡ wordSum (Memory.read p i (4 * n)) [MOD 65535] ∧
      (longSum p i n = 0 ↔ wordSum (Memory.read p i (4 * n)) = 0) := by
  induction n generalizing i with
  | zero => exact ⟨rfl, Iff.rfl⟩
  | succ n ih =>
      obtain ⟨hmod, hzero⟩ := ih (i + 4)
      rw [longSum, show 4 * (n + 1) = 4 * n + 1 + 1 + 1 + 1 by omega]
      simp only [Memory.read_succ, wordSum, toNat_rd32, toNat_rd16, Nat.add_assoc, Nat.reduceAdd]
      unfold Nat.ModEq at hmod ⊢
      exact ⟨by omega, by omega⟩

/-- A region of zeros sums to the spelling `0`. -/
theorem sumLongwordsLoop_of_zero {p : Mem} {i n : Nat} (h : longSum p i n = 0) :
    sumLongwordsLoop p 0 i n = 0 := by
  induction n generalizing i with
  | zero => rfl
  | succ n ih =>
      rw [longSum] at h
      have hword : rd32 p i = 0 := BitVec.eq_of_toNat_eq (by simpa using (by omega :
        (rd32 p i).toNat = 0))
      rw [sumLongwordsLoop, hword, (eac_eq_zero_iff 0 0).mpr ⟨rfl, rfl⟩]
      exact ih (by omega)

/-- The longwords of a buffer, summed and folded. -/
theorem toNat_fold_n68kSumLongwords (p : Mem) (i n : Nat) :
    (fold (n68kSumLongwords p i n)).toNat = onesSum (wordSum (Memory.read p i (4 * n))) := by
  obtain ⟨hmod, hzero⟩ := longSum_modEq_read p i n
  rw [toNat_fold]
  refine onesSum_eq_of_modEq_of_zero ((n68kSumLongwords_modEq p i n).trans hmod) ?_
  rw [← hzero]
  refine ⟨fun h ↦ n68kSumLongwords_eq_zero (BitVec.eq_of_toNat_eq h), fun h ↦ ?_⟩
  rw [n68kSumLongwords, sumLongwordsLoop_of_zero h]
  rfl

theorem toNat_rd16_eq_wordSum (m : Mem) (a : Nat) :
    (rd16 m a).toNat = wordSum (Memory.read m a 2) := by
  rw [toNat_rd16]
  simp [Memory.read, List.range_succ, wordSum]

/-- **The longwords of one buffer**, as many as the data and the buffer both have. -/
theorem bufferWords_eq (m : Mem) (b : PacketBuffer) (s : ChecksumWalk) :
    bufferWords m b s =
      { checksum := s.checksum +
          fold (n68kSumLongwords m b.prepend (min s.dataLength.toNat b.size / 4))
        longPtr := b.prepend + 4 * (min s.dataLength.toNat b.size / 4)
        dataLength := s.dataLength -
          BitVec.ofNat 32 (4 * (min s.dataLength.toNat b.size / 4)) } := by
  obtain ⟨prepend, append, hnonnull, haligned, hordered, hfits⟩ := b
  obtain ⟨checksum, longPtr, dataLength⟩ := s
  unfold bufferWords PacketBuffer.size
  generalize hn : dataLength.toNat = n
  simp only [n68kFold_eq]
  generalize hend : (if append - prepend < n then append - append % 4 else prepend + n - 3) = endPtr
  have hwords : prepend < endPtr → (endPtr - prepend + 3) / 4 = min n (append - prepend) / 4 ∧
      endPtr + 3 - (endPtr + 3) % 4 - prepend = 4 * (min n (append - prepend) / 4) := by
    intro hlt
    split_ifs at hend <;> omega
  by_cases hlt : prepend < endPtr
  · rw [if_pos hlt, (hwords hlt).1, (hwords hlt).2]
  · have hzero : min n (append - prepend) / 4 = 0 := by split_ifs at hend <;> omega
    have hsum : fold (n68kSumLongwords m prepend 0) = 0#32 := by
      rw [n68kSumLongwords, sumLongwordsLoop]
      decide
    rw [if_neg hlt, hzero, hsum, BitVec.add_zero, Nat.mul_zero, Nat.add_zero]
    simp

/-- The variables behind the longwords of a buffer that has `k` bytes of the data. -/
theorem bufferWords_toNat (m : Mem) (b : PacketBuffer) (s : ChecksumWalk) {k : Nat}
    (hk : k = min s.dataLength.toNat b.size) :
    (bufferWords m b s).checksum.toNat =
        (s.checksum.toNat + onesSum (wordSum (Memory.read m b.prepend (4 * (k / 4))))) % 2 ^ 32 ∧
      (bufferWords m b s).longPtr = b.prepend + 4 * (k / 4) ∧
      (bufferWords m b s).dataLength.toNat = s.dataLength.toNat - 4 * (k / 4) := by
  have hlength := s.dataLength.isLt
  rw [bufferWords_eq, ← hk]
  refine ⟨?_, rfl, ?_⟩
  · simp only [BitVec.toNat_add, toNat_fold_n68kSumLongwords]
  · simp only [BitVec.toNat_sub, BitVec.toNat_ofNat]
    omega

/-- The longwords of a buffer are not all of the data. -/
theorem bufferWords_more (m : Mem) (b : PacketBuffer) (s : ChecksumWalk) {k : Nat}
    (hk : k = min s.dataLength.toNat b.size) (h : 4 * (k / 4) < s.dataLength.toNat) :
    (bufferWords m b s).dataLength ≠ 0 := by
  obtain ⟨-, -, hleft⟩ := bufferWords_toNat m b s hk
  intro hzero
  rw [hzero, BitVec.ofNat_eq_ofNat, BitVec.toNat_zero] at hleft
  omega

/-- **A buffer with the word at its boundary.** -/
theorem boundaryWord_toNat (m : Mem) (b : PacketBuffer) (s : ChecksumWalk) {k : Nat}
    (hk : k = min s.dataLength.toNat b.size)
    (hrest : k % 4 = 0 ∧ b.size % 4 = 0 ∨ k % 4 = 2 ∧ b.size % 4 = 2) :
    (boundaryWord m b (bufferWords m b s)).checksum.toNat =
        (s.checksum.toNat + (onesSum (wordSum (Memory.read m b.prepend (4 * (k / 4)))) +
          wordSum (Memory.read m (b.prepend + 4 * (k / 4)) (k % 4)))) % 2 ^ 32 ∧
      (boundaryWord m b (bufferWords m b s)).dataLength.toNat = s.dataLength.toNat - k := by
  obtain ⟨hsum, hptr, hleft⟩ := bufferWords_toNat m b s hk
  have haligned := b.aligned
  have hordered := b.ordered
  have hlength := s.dataLength.isLt
  have hsize : b.size = b.append - b.prepend := rfl
  generalize bufferWords m b s = s' at hsum hptr hleft
  rcases hrest with ⟨hk4, hb⟩ | ⟨hk4, hb⟩
  · rw [boundaryWord, if_neg (by omega), hk4]
    exact ⟨hsum, by omega⟩
  · rw [boundaryWord, if_pos (by omega), hk4, ← hptr, ← toNat_rd16_eq_wordSum]
    have htwo : (2 : ULong).toNat = 2 := rfl
    refine ⟨?_, ?_⟩
    · simp only [BitVec.toNat_add, hsum, Nat.mod_add_mod, Nat.add_assoc]
    · simp only [BitVec.toNat_sub, htwo]
      omega

/-! ### The rest of the data -/

/-- The rest is added with its padding, and the padding is the only byte written. -/
theorem checksumTail_eq (m : Mem) {s : ChecksumWalk} (h : s.dataLength.toNat < 4) :
    (checksumTail m s).1.toNat =
        (s.checksum.toNat + wordSum (Memory.read m s.longPtr s.dataLength.toNat)) % 2 ^ 32 ∧
      (checksumTail m s).2 = if s.dataLength.toNat % 2 = 1 then
        Function.update m (s.longPtr + s.dataLength.toNat) 0 else m := by
  have hzero : (0 : UByte).toNat = 0 := rfl
  have hlast (a : Nat) : (rd16 (Function.update m (a + 1) 0) a).toNat = (m a).toNat * 256 := by
    rw [toNat_rd16, Function.update_self, Function.update_of_ne (by omega), hzero, Nat.add_zero]
  unfold checksumTail
  obtain hn | hn | hn | hn : s.dataLength.toNat = 0 ∨ s.dataLength.toNat = 1 ∨
      s.dataLength.toNat = 2 ∨ s.dataLength.toNat = 3 := by omega
  all_goals rw [hn]
  · have hlt := s.checksum.isLt
    simp only [Memory.read, List.range_zero, List.map_nil, wordSum]
    exact ⟨by omega, rfl⟩
  · refine ⟨?_, rfl⟩
    simp only [BitVec.toNat_add, hlast]
    rfl
  · refine ⟨?_, rfl⟩
    simp only [BitVec.toNat_add, toNat_rd16_eq_wordSum]
  · refine ⟨?_, rfl⟩
    simp only [BitVec.toNat_add, hlast, Nat.mod_add_mod, toNat_rd16]
    simp [Memory.read, List.range_succ, wordSum, Nat.add_assoc]

/-! ### The walk over the buffers -/

/-- Without data the walk does not leave the first buffer, and takes in nothing. -/
theorem checksumWalk_of_zero (m : Mem) (bufs : List PacketBuffer) {s : ChecksumWalk}
    (h : s.dataLength = 0) :
    (checksumWalk m bufs s).checksum = s.checksum ∧ (checksumWalk m bufs s).dataLength = 0 := by
  cases bufs with
  | nil => exact ⟨rfl, h⟩
  | cons b rest =>
      have hnone : bufferWords m b s = { s with longPtr := b.prepend } := by
        unfold bufferWords
        rw [h, if_neg (by simp)]
      rw [checksumWalk, hnone, if_neg (by simp [h])]
      exact ⟨rfl, h⟩

/-- The data of a packet whose first buffer has all of it. -/
theorem take_chainBytes_of_le (m : Mem) {b : PacketBuffer} {rest : List PacketBuffer} {n : Nat}
    (h : n ≤ b.size) : (chainBytes m (b :: rest)).take n = Memory.read m b.prepend n := by
  have hsplit : Memory.read m b.prepend b.size =
      Memory.read m b.prepend n ++ Memory.read m (b.prepend + n) (b.size - n) := by
    rw [← Memory.read_add, Nat.add_sub_cancel' h]
  rw [chainBytes, List.flatMap_cons, hsplit, List.append_assoc]
  exact List.take_left' (Memory.length_read ..)

/-- The data of a packet that goes on behind the first buffer. -/
theorem take_chainBytes_of_lt (m : Mem) {b : PacketBuffer} {rest : List PacketBuffer} {n : Nat}
    (h : b.size < n) : (chainBytes m (b :: rest)).take n =
      Memory.read m b.prepend b.size ++ (chainBytes m rest).take (n - b.size) := by
  rw [chainBytes, List.flatMap_cons, List.take_append,
    List.take_of_length_le (by rw [Memory.length_read]; omega), Memory.length_read]
  rfl

theorem length_chainBytes (m : Mem) (bufs : List PacketBuffer) :
    (chainBytes m bufs).length = (bufs.map PacketBuffer.size).sum := by
  simp [chainBytes, List.length_flatMap]

theorem length_chainBytes_cons (m : Mem) (b : PacketBuffer) (rest : List PacketBuffer) :
    (chainBytes m (b :: rest)).length = b.size + (chainBytes m rest).length := by
  rw [chainBytes, List.flatMap_cons, List.length_append, Memory.length_read]
  rfl

theorem walkSum_zero (m : Mem) (bufs : List PacketBuffer) : walkSum m bufs 0 = 0 := by
  induction bufs with
  | nil => rfl
  | cons b rest ih => simp [walkSum, ih, Memory.read, wordSum, onesSum]

/-- The walk ends in the buffer where the data ends. -/
theorem checksumTail_bufferWords (m : Mem) {b : PacketBuffer} (rest : List PacketBuffer)
    {s : ChecksumWalk} (hle : s.dataLength.toNat ≤ b.size) :
    (checksumTail m (bufferWords m b s)).1.toNat =
        (s.checksum.toNat + walkSum m (b :: rest) s.dataLength.toNat) % 2 ^ 32 ∧
      (checksumTail m (bufferWords m b s)).2 = if s.dataLength.toNat % 2 = 1 then
        Function.update m (endAddress (b :: rest) s.dataLength.toNat) 0 else m := by
  obtain ⟨hsum, hptr, hleft⟩ := bufferWords_toNat m b s (Nat.min_eq_left hle).symm
  obtain ⟨hvalue, hmem⟩ := checksumTail_eq m (s := bufferWords m b s) (by omega)
  have hmod : s.dataLength.toNat - 4 * (s.dataLength.toNat / 4) = s.dataLength.toNat % 4 := by omega
  rw [hleft, hmod, hptr] at hvalue hmem
  constructor
  · rw [hvalue, hsum, walkSum, Nat.min_eq_left hle, Nat.sub_eq_zero_of_le hle, walkSum_zero,
      Nat.add_zero, Nat.mod_add_mod, Nat.add_assoc]
  · have hend : b.prepend + 4 * (s.dataLength.toNat / 4) + s.dataLength.toNat % 4 =
        b.prepend + s.dataLength.toNat := by omega
    have hodd : s.dataLength.toNat % 4 % 2 = s.dataLength.toNat % 2 := by omega
    rw [hmem, endAddress, if_pos hle, hend, hodd]

/-- **The walk and the rest.**  By induction on the buffers: one that the data goes through is added
whole, and the walk ends where the data ends. -/
theorem checksumTail_walk (m : Mem) {bufs : List PacketBuffer} {s : ChecksumWalk}
    (hne : bufs ≠ []) (heven : ∀ b ∈ bufs.dropLast, b.size % 2 = 0)
    (hends : EndsWell bufs s.dataLength.toNat)
    (hlength : s.dataLength.toNat ≤ (chainBytes m bufs).length) :
    (checksumTail m (checksumWalk m bufs s)).1.toNat =
        (s.checksum.toNat + walkSum m bufs s.dataLength.toNat) % 2 ^ 32 ∧
      (checksumTail m (checksumWalk m bufs s)).2 = if s.dataLength.toNat % 2 = 1 then
        Function.update m (endAddress bufs s.dataLength.toNat) 0 else m := by
  induction bufs generalizing s with
  | nil => exact absurd rfl hne
  | cons b rest ih =>
      rw [length_chainBytes_cons] at hlength
      cases rest with
      | nil =>
          have hle : s.dataLength.toNat ≤ b.size := by simpa [chainBytes] using hlength
          rw [checksumWalk, if_neg (by simp)]
          exact checksumTail_bufferWords m [] hle
      | cons b' rest =>
          have hb : b.size % 2 = 0 := heven b (by simp)
          rw [EndsWell] at hends
          by_cases hle : s.dataLength.toNat ≤ b.size
          · rw [if_pos hle] at hends
            rcases hends with hwhole | hrest
            · obtain ⟨-, -, hleft⟩ := bufferWords_toNat m b s (Nat.min_eq_left hle).symm
              have hnone : (bufferWords m b s).dataLength = 0 :=
                BitVec.eq_of_toNat_eq (hleft.trans (show _ = 0 by omega))
              rw [checksumWalk, if_neg (by simp [hnone])]
              exact checksumTail_bufferWords m (b' :: rest) hle
            -- two bytes are left, and the buffer's own end stands so: they are added here
            have hmore := bufferWords_more m b s (Nat.min_eq_left hle).symm (by omega)
            obtain ⟨hsum, hdone⟩ :=
              boundaryWord_toNat m b s (Nat.min_eq_left hle).symm (.inr hrest)
            rw [Nat.sub_self] at hdone
            obtain ⟨hsame, hnone⟩ := checksumWalk_of_zero m (b' :: rest)
              (BitVec.eq_of_toNat_eq hdone)
            have htail (t : ChecksumWalk) (ht : t.dataLength = 0) :
                checksumTail m t = (t.checksum, m) := by
              rw [checksumTail, ht]
              rfl
            rw [checksumWalk, if_pos ⟨hmore, by simp⟩, htail _ hnone, hsame, if_neg (by omega)]
            refine ⟨?_, rfl⟩
            rw [hsum, walkSum, Nat.min_eq_left hle, Nat.sub_eq_zero_of_le hle, walkSum_zero,
              Nat.add_zero]
          · rw [if_neg hle] at hends
            have hlt : b.size < s.dataLength.toNat := Nat.lt_of_not_le hle
            have hmin : b.size = min s.dataLength.toNat b.size := by omega
            obtain ⟨hsum, hgone⟩ := boundaryWord_toNat m b s hmin (by omega)
            have hodd : (s.dataLength.toNat - b.size) % 2 = s.dataLength.toNat % 2 := by omega
            obtain ⟨hvalue, hmem⟩ := ih (s := boundaryWord m b (bufferWords m b s)) (by simp)
              (fun c hc ↦ heven c (by simp [hc])) (hgone ▸ hends) (by omega)
            rw [hgone] at hvalue hmem
            have hend : endAddress (b :: b' :: rest) s.dataLength.toNat =
                endAddress (b' :: rest) (s.dataLength.toNat - b.size) := if_neg hle
            rw [checksumWalk, if_pos ⟨bufferWords_more m b s hmin (by omega), by simp⟩, hvalue,
              hmem, hsum, hend, hodd, Nat.mod_add_mod, Nat.add_assoc]
            refine ⟨?_, rfl⟩
            conv_rhs => rw [walkSum, ← hmin]

/-! ### Data that ends elsewhere -/

/-- The bytes of a buffer, as the walk takes them. -/
theorem wordSum_read_split (m : Mem) (a k : Nat) :
    wordSum (Memory.read m a k) = wordSum (Memory.read m a (4 * (k / 4))) +
      wordSum (Memory.read m (a + 4 * (k / 4)) (k % 4)) := by
  rw [← wordSum_append_even (by rw [Memory.length_read]; omega), ← Memory.read_add,
    Nat.div_add_mod]

/-- A longword lies between each two buffers, as the header of a packet does. -/
def Apart (bufs : List PacketBuffer) : Prop :=
  bufs.Pairwise fun b c ↦ b.append + 4 ≤ c.prepend ∨ c.append + 4 ≤ b.prepend

/-- A buffer of zeros, with a longword of them behind it. -/
def Quiet (m : Mem) (b : PacketBuffer) : Prop := ∀ i < b.size + 4, m (b.prepend + i) = 0

section Zeros

variable {m : Mem} {b : PacketBuffer} {s : ChecksumWalk}

theorem wordSum_read_zero {a k : Nat} (h : ∀ i < k, m (a + i) = 0) :
    wordSum (Memory.read m a k) = 0 :=
  wordSum_eq_zero (by simpa [Memory.read] using h)

theorem rd16_zero {a : Nat} (h : m a = 0) (h' : m (a + 1) = 0) : rd16 m a = 0#32 := by
  refine BitVec.eq_of_toNat_eq ?_
  rw [toNat_rd16, h, h']
  rfl

theorem bufferWords_zero {k : Nat} (hk : k = min s.dataLength.toNat b.size)
    (h : ∀ i < 4 * (k / 4), m (b.prepend + i) = 0) :
    (bufferWords m b s).checksum = s.checksum := by
  refine BitVec.eq_of_toNat_eq ?_
  rw [(bufferWords_toNat m b s hk).1, wordSum_read_zero h]
  exact Nat.mod_eq_of_lt s.checksum.isLt

theorem Quiet.behind (h : Quiet m b) (s : ChecksumWalk) {i : Nat} (hi : i < 4) :
    m ((bufferWords m b s).longPtr + i) = 0 := by
  rw [(bufferWords_toNat m b s rfl).2.1, Nat.add_assoc]
  exact h _ (by omega)

theorem Quiet.boundaryWord (h : Quiet m b) (s : ChecksumWalk) :
    (Net68k.boundaryWord m b (bufferWords m b s)).checksum = s.checksum := by
  have hsum := bufferWords_zero (s := s) rfl fun i hi ↦ h i (by omega)
  have hword := rd16_zero (h.behind s (i := 0) (by decide)) (h.behind s (i := 1) (by decide))
  rw [Net68k.boundaryWord]
  split_ifs
  · simpa [hsum] using hword
  · exact hsum

theorem checksumTail_zero (h : ∀ i < 4, m (s.longPtr + i) = 0) :
    (checksumTail m s).1 = s.checksum := by
  have hword : rd16 m s.longPtr = 0#32 := rd16_zero (h 0 (by decide)) (h 1 (by decide))
  have hpad (a : Nat) (ha : m a = 0) : rd16 (Function.update m (a + 1) 0#8) a = 0#32 :=
    rd16_zero (by rw [Function.update_of_ne (by omega), ha]) (Function.update_self ..)
  unfold checksumTail
  split
  · rfl
  · simp [hpad s.longPtr (h 0 (by decide))]
  · simp [hword, hpad (s.longPtr + 2) (h 2 (by decide))]
  · simp [hword]

/-- A walk over zeros, whatever length it has got. -/
theorem checksumTail_walk_zero {bufs : List PacketBuffer} (hne : bufs ≠ []) (s : ChecksumWalk)
    (h : ∀ b ∈ bufs, Quiet m b) : (checksumTail m (checksumWalk m bufs s)).1 = s.checksum := by
  induction bufs generalizing s with
  | nil => exact absurd rfl hne
  | cons b rest ih =>
      obtain ⟨hb, hrest⟩ := List.forall_mem_cons.mp h
      rw [checksumWalk]
      split_ifs with hmore
      · rw [ih hmore.2 _ hrest, hb.boundaryWord]
      · rw [checksumTail_zero fun i ↦ hb.behind s, bufferWords_zero rfl fun i hi ↦ hb i (by omega)]

end Zeros

/-- Memory with one byte that is not zero. -/
def oneByte (x : Nat) : Mem := Function.update (fun _ ↦ 0) x 2

theorem oneByte_of_ne {x a : Nat} (h : a ≠ x) : oneByte x a = 0 := Function.update_of_ne h ..

/-- The byte of one buffer leaves the others quiet. -/
theorem quiet_oneByte {b c : PacketBuffer} {x : Nat} (hx : b.prepend ≤ x ∧ x < b.append)
    (h : b.append + 4 ≤ c.prepend ∨ c.append + 4 ≤ b.prepend) : Quiet (oneByte x) c := by
  intro i hi
  have hordered := c.ordered
  rw [PacketBuffer.size] at hi
  exact oneByte_of_ne (by omega)

/-- The sum of the data and what the walk takes in instead. -/
def Strays (sum stray : Nat) : Prop := sum = 0 ∧ stray = 2 ∨ (sum = 2 ∨ sum = 512) ∧ stray = 0

/-- The buffer where the data ends: the byte that the walk misses, or takes in though it is no
data. -/
theorem exists_stray {b : PacketBuffer} {n : Nat} (hle : n ≤ b.size) (hb : b.size % 2 = 0)
    (hends : ¬(n % 4 = 0 ∨ n % 4 = 2 ∧ b.size % 4 = 2)) :
    ∃ x stray, (b.prepend ≤ x ∧ x < b.append) ∧
      Strays (wordSum (Memory.read (oneByte x) b.prepend n)) stray ∧
      ∀ s : ChecksumWalk, s.dataLength.toNat = n →
        (boundaryWord (oneByte x) b (bufferWords (oneByte x) b s)).checksum =
          s.checksum + BitVec.ofNat 32 stray := by
  have hsize : b.size = b.append - b.prepend := rfl
  have hordered := b.ordered
  have haligned := b.aligned
  have hfront {x : Nat} (hx : b.prepend + n ≤ x + 1) (s : ChecksumWalk)
      (hs : s.dataLength.toNat = n) : (bufferWords (oneByte x) b s).checksum = s.checksum ∧
        (bufferWords (oneByte x) b s).longPtr = b.prepend + 4 * (n / 4) := by
    have hk : n = min s.dataLength.toNat b.size := by omega
    exact ⟨bufferWords_zero hk fun i hi ↦ oneByte_of_ne (by omega),
      (bufferWords_toNat _ b s hk).2.1⟩
  by_cases hover : n % 4 = 1 ∧ b.size % 4 = 2
  · -- the word at the boundary takes in the byte behind the data
    refine ⟨b.prepend + n, 2, by omega, .inl ⟨?_, rfl⟩, fun s hs ↦ ?_⟩
    · exact wordSum_read_zero fun i hi ↦ oneByte_of_ne (by omega)
    · obtain ⟨hsum, hptr⟩ := hfront (Nat.le_succ _) s hs
      have hlast : b.prepend + 4 * (n / 4) + 1 = b.prepend + n := by omega
      rw [boundaryWord, if_pos (by omega), hsum, hptr]
      refine congrArg (s.checksum + ·) (BitVec.eq_of_toNat_eq ?_)
      rw [toNat_rd16, oneByte_of_ne (by omega), hlast, oneByte, Function.update_self]
      rfl
  · -- the last byte of the data is not taken in
    obtain ⟨r, hr⟩ : ∃ r, n % 4 = r + 1 := ⟨n % 4 - 1, by omega⟩
    refine ⟨b.prepend + 4 * (n / 4) + r, 0, by omega, .inr ⟨?_, rfl⟩, fun s hs ↦ ?_⟩
    · rw [wordSum_read_split, wordSum_read_zero fun i hi ↦ oneByte_of_ne (by omega), Nat.zero_add,
        hr]
      obtain rfl | rfl | rfl : r = 0 ∨ r = 1 ∨ r = 2 := by omega
      all_goals simp [Memory.read, List.range_succ, wordSum, oneByte]
    · obtain ⟨hsum, hptr⟩ := hfront (x := b.prepend + 4 * (n / 4) + r) (by omega) s hs
      rw [boundaryWord, BitVec.add_zero]
      split_ifs
      · rw [hptr, hsum, rd16_zero (oneByte_of_ne (by omega)) (oneByte_of_ne (by omega)),
          BitVec.add_zero]
      · exact hsum

/-- **Data that ends elsewhere.**  In memory with one byte that is not zero the walk takes in
another sum than that of the data. -/
theorem checksumTail_walk_stray {bufs : List PacketBuffer} {n : Nat}
    (heven : ∀ b ∈ bufs.dropLast, b.size % 2 = 0) (hapart : Apart bufs) (hends : ¬EndsWell bufs n) :
    ∃ x stray, (∃ b ∈ bufs, b.prepend ≤ x ∧ x < b.append) ∧
      Strays (wordSum ((chainBytes (oneByte x) bufs).take n)) stray ∧
      ∀ s : ChecksumWalk, s.dataLength.toNat = n →
        (checksumTail (oneByte x) (checksumWalk (oneByte x) bufs s)).1 =
          s.checksum + BitVec.ofNat 32 stray := by
  induction bufs generalizing n with
  | nil => exact absurd trivial hends
  | cons b rest ih =>
      cases rest with
      | nil => exact absurd trivial hends
      | cons b' rest =>
          have hb : b.size % 2 = 0 := heven b (by simp)
          obtain ⟨hclear, hrest⟩ := List.pairwise_cons.mp hapart
          rw [EndsWell] at hends
          by_cases hle : n ≤ b.size
          · rw [if_pos hle] at hends
            obtain ⟨x, stray, hx, hstray, hwalk⟩ := exists_stray hle hb hends
            have hquiet : ∀ c ∈ b' :: rest, Quiet (oneByte x) c :=
              fun c hc ↦ quiet_oneByte hx (hclear c hc)
            refine ⟨x, stray, ⟨b, List.mem_cons_self, hx⟩, ?_, fun s hs ↦ ?_⟩
            · rwa [take_chainBytes_of_le _ hle]
            · have hmore := bufferWords_more (oneByte x) b s (k := n) (by omega) (by omega)
              rw [checksumWalk, if_pos ⟨hmore, by simp⟩,
                checksumTail_walk_zero (by simp) _ hquiet, hwalk s hs]
          · rw [if_neg hle] at hends
            obtain ⟨x, stray, ⟨c, hc, hx⟩, hstray, hwalk⟩ :=
              ih (fun c hc ↦ heven c (by simp [hc])) hrest hends
            have hquiet : Quiet (oneByte x) b := quiet_oneByte hx (hclear c hc).symm
            refine ⟨x, stray, ⟨c, List.mem_cons_of_mem _ hc, hx⟩, ?_, fun s hs ↦ ?_⟩
            · rw [take_chainBytes_of_lt _ (Nat.lt_of_not_le hle),
                wordSum_append_even (by rw [Memory.length_read]; exact hb),
                wordSum_read_zero fun i hi ↦ hquiet i (by omega), Nat.zero_add]
              exact hstray
            · have hmin : b.size = min s.dataLength.toNat b.size := by omega
              obtain ⟨-, hgone⟩ := boundaryWord_toNat (oneByte x) b s hmin (by omega)
              rw [checksumWalk, if_pos ⟨bufferWords_more _ b s hmin (by omega), by simp⟩,
                hwalk _ (by omega), hquiet.boundaryWord]

/-! ### What the walk adds up -/

theorem wordSum_read_le (m : Mem) (a : Nat) {k : Nat} (hk : k < 4) :
    wordSum (Memory.read m a k) ≤ 65535 * ((k + 1) / 2) := by
  have h₀ := (m (a + 0)).isLt
  have h₁ := (m (a + 1)).isLt
  have h₂ := (m (a + 2)).isLt
  obtain rfl | rfl | rfl | rfl : k = 0 ∨ k = 1 ∨ k = 2 ∨ k = 3 := by omega
  all_goals
    simp only [Memory.read, List.range, List.range.loop, List.map_cons, List.map_nil, wordSum]
    omega

/-- **The sum of the walk** counts as the sum of the data, and stays far below 65535 carries. -/
theorem walkSum_spec (m : Mem) {bufs : List PacketBuffer} {n : Nat}
    (heven : ∀ b ∈ bufs.dropLast, b.size % 2 = 0) (hlength : n ≤ (chainBytes m bufs).length) :
    (∀ c, onesSum (c + walkSum m bufs n) = onesSum (c + wordSum ((chainBytes m bufs).take n))) ∧
      2 * walkSum m bufs n ≤ 65535 * (n + 1) := by
  induction bufs generalizing n with
  | nil => exact ⟨fun c ↦ by simp [walkSum, chainBytes, wordSum], by simp [walkSum]⟩
  | cons b rest ih =>
      rw [length_chainBytes_cons] at hlength
      have hfold := onesSum_le (wordSum (Memory.read m b.prepend (4 * (min n b.size / 4))))
      have hrest := wordSum_read_le m (b.prepend + 4 * (min n b.size / 4))
        (Nat.mod_lt (min n b.size) (by decide : 0 < 4))
      have hnone : min n b.size / 4 = 0 →
          onesSum (wordSum (Memory.read m b.prepend (4 * (min n b.size / 4)))) = 0 := by
        intro hzero
        simp [hzero, Memory.read, wordSum, onesSum]
      have hbuffer (c d : Nat) : onesSum (c +
          (onesSum (wordSum (Memory.read m b.prepend (4 * (min n b.size / 4)))) +
            wordSum (Memory.read m (b.prepend + 4 * (min n b.size / 4)) (min n b.size % 4)) + d)) =
          onesSum (c + wordSum (Memory.read m b.prepend (min n b.size)) + d) := by
        rw [wordSum_read_split m b.prepend (min n b.size), Nat.add_comm c, Nat.add_assoc,
          Nat.add_assoc, Nat.add_comm (onesSum _), onesSum_add_onesSum]
        congr 1
        omega
      by_cases hle : n ≤ b.size
      · rw [take_chainBytes_of_le m hle, walkSum, Nat.sub_eq_zero_of_le hle, walkSum_zero]
        refine ⟨fun c ↦ ?_, by omega⟩
        rw [hbuffer, Nat.min_eq_left hle, Nat.add_zero]
      · have hb : b.size % 2 = 0 := by
          refine heven b ?_
          cases rest with
          | nil => exact absurd hlength (by simpa [chainBytes] using hle)
          | cons b' rest => simp
        obtain ⟨hsum, hbound⟩ := ih (n := n - b.size) (fun c hc ↦ heven c (by
          cases rest with
          | nil => cases hc
          | cons b' rest => simp [hc])) (by omega)
        rw [take_chainBytes_of_lt m (Nat.lt_of_not_le hle),
          wordSum_append_even (by rw [Memory.length_read]; exact hb), walkSum]
        refine ⟨fun c ↦ ?_, by omega⟩
        rw [hbuffer, Nat.min_eq_right (by omega), hsum, Nat.add_assoc]

/-- The sum of the pseudo header passes `2 ^ 32` once at most. -/
theorem pseudoSum_lt (ipVersion protocol : Nat) {dataLength : Nat} (src dst : List ULong)
    (hlength : dataLength < 2 ^ 32) :
    pseudoSum ipVersion protocol dataLength src dst < 2 ^ 33 := by
  unfold pseudoSum
  split_ifs with hprotocol
  swap
  · decide
  have hsmall : protocol ≤ 58 := by
    rcases hprotocol with rfl | rfl | rfl <;> decide
  have hle := pseudoHeaderSum_le ipVersion protocol dataLength src dst
  omega

/-! ### The checksum -/

/-- The value and the memory, from the walk that starts with the folded pseudo header. -/
theorem n68kIpChecksumChain_walk (m : Mem) (bufs : List PacketBuffer) (ipVersion protocol : Nat)
    (dataLength : ULong) (src dst : List ULong) :
    ∃ s : ChecksumWalk, s.dataLength = dataLength ∧
      s.checksum.toNat =
        onesSum (pseudoSum ipVersion protocol dataLength.toNat src dst % 2 ^ 32) ∧
      (n68kIpChecksumChain m bufs ipVersion protocol dataLength src dst).1.toNat =
        onesSum (checksumTail m (checksumWalk m bufs s)).1.toNat ∧
      (n68kIpChecksumChain m bufs ipVersion protocol dataLength src dst).2 =
        (checksumTail m (checksumWalk m bufs s)).2 := by
  refine ⟨⟨_, 0, dataLength⟩, rfl, ?_, ?_, rfl⟩
  rotate_left
  · have hword (n : Nat) : onesSum n % 2 ^ 16 = onesSum n :=
      Nat.mod_eq_of_lt (Nat.lt_succ_of_le (onesSum_le n))
    simp only [n68kIpChecksumChain, n68kFold_eq, BitVec.toNat_setWidth, toNat_fold, hword]
  · simp only [n68kFold_eq, pseudoSum]
    split_ifs with hprotocol
    · rw [toNat_fold, toNat_pseudoHeader]
    · rfl

/-- A sum that strays, behind any pseudo header. -/
theorem onesSum_strays {p sum stray : Nat} (hp : p < 2 ^ 33) (h : Strays sum stray) :
    onesSum ((onesSum (p % 2 ^ 32) + stray) % 2 ^ 32) ≠ onesSum (p + sum) := by
  intro heq
  have hmod := congrArg (· % 65535) heq
  have hle := onesSum_le (p % 2 ^ 32)
  have hstart := onesSum_mod (p % 2 ^ 32)
  simp only [onesSum_mod] at hmod
  rcases h with ⟨rfl, rfl⟩ | ⟨rfl | rfl, rfl⟩ <;> omega

/-- **The checksum of a packet and the byte it writes.**  Where the data ends well, memory changes
at most in the byte behind an odd end, and the result is the one's-complement sum of the pseudo
header and the data, `0` for a sum of zeros only, exactly when no carry is lost.  Where it ends
elsewhere there is memory for which the result is wrong. -/
theorem n68kIpChecksumChain_eq (m : Mem) (bufs : List PacketBuffer) (ipVersion protocol : Nat)
    (dataLength : ULong) (src dst : List ULong) (hne : bufs ≠ [])
    (heven : ∀ b ∈ bufs.dropLast, b.size % 2 = 0)
    (hlength : dataLength.toNat ≤ (chainBytes m bufs).length) :
    (EndsWell bufs dataLength.toNat →
      ((n68kIpChecksumChain m bufs ipVersion protocol dataLength src dst).1.toNat =
          internetSum ipVersion protocol ((chainBytes m bufs).take dataLength.toNat) src dst ↔
        KeepsCarries m bufs ipVersion protocol dataLength.toNat src dst) ∧
      (n68kIpChecksumChain m bufs ipVersion protocol dataLength src dst).2 =
        if dataLength.toNat % 2 = 1 then Function.update m (endAddress bufs dataLength.toNat) 0
        else m) ∧
    (¬EndsWell bufs dataLength.toNat → Apart bufs → ∃ m',
      (n68kIpChecksumChain m' bufs ipVersion protocol dataLength src dst).1.toNat ≠
        internetSum ipVersion protocol ((chainBytes m' bufs).take dataLength.toNat) src dst) := by
  have hdata (m' : Mem) :
      ((chainBytes m' bufs).take dataLength.toNat).length = dataLength.toNat := by
    rw [List.length_take, length_chainBytes, ← length_chainBytes m, Nat.min_eq_left hlength]
  have hpseudo := pseudoSum_lt ipVersion protocol src dst dataLength.isLt
  unfold internetSum KeepsCarries
  simp only [hdata]
  refine ⟨fun hends ↦ ?_, fun hends hapart ↦ ?_⟩
  · obtain ⟨hfolds, hbound⟩ := walkSum_spec m heven hlength
    have hcarries : 2 * walkSum m bufs dataLength.toNat ≤ 65535 * 2 ^ 32 := by
      have hlt := dataLength.isLt
      omega
    obtain ⟨s, rfl, hstart, hvalue, hmem⟩ :=
      n68kIpChecksumChain_walk m bufs ipVersion protocol dataLength src dst
    obtain ⟨hsum, hwritten⟩ := checksumTail_walk m hne heven hends hlength
    rw [hvalue, hmem, hsum, hstart, ← hfolds]
    exact ⟨onesSum_cut_iff hpseudo hcarries, hwritten⟩
  · obtain ⟨x, stray, -, hstray, hwalk⟩ := checksumTail_walk_stray heven hapart hends
    obtain ⟨s, rfl, hstart, hvalue, -⟩ :=
      n68kIpChecksumChain_walk (oneByte x) bufs ipVersion protocol dataLength src dst
    refine ⟨oneByte x, ?_⟩
    have hsmall : stray % 2 ^ 32 = stray := by
      rcases hstray with ⟨-, rfl⟩ | ⟨-, rfl⟩ <;> rfl
    rw [hvalue, hwalk s rfl, BitVec.toNat_add, BitVec.toNat_ofNat, hsmall, hstart]
    exact onesSum_strays hpseudo hstray

/-- A packet of eight bytes and four. -/
def eightAndFour : List PacketBuffer :=
  [⟨4096, 4104, by decide, by decide, by decide, by decide⟩,
    ⟨8192, 8196, by decide, by decide, by decide, by decide⟩]

/-- Zeros, a `1` at the fifth byte of the first buffer, and `2`s in the second one. -/
def eightAndFourMem : Mem := fun a ↦ if a = 4100 then 1 else if 8192 ≤ a then 2 else 0

theorem n68kIpChecksumChain_eq_eleven :
    (n68kIpChecksumChain eightAndFourMem eightAndFour ipVersionV4 protocolUdp 11
        [0xC0A80001] [0xC0A80002]).1.toNat =
        internetSum ipVersionV4 protocolUdp ((chainBytes eightAndFourMem eightAndFour).take 11)
          [0xC0A80001] [0xC0A80002] ∧
      (n68kIpChecksumChain eightAndFourMem eightAndFour ipVersionV4 protocolUdp 11
        [0xC0A80001] [0xC0A80002]).2 = Function.update eightAndFourMem 8195 0 := by
  obtain ⟨hvalue, hmem⟩ := (n68kIpChecksumChain_eq eightAndFourMem eightAndFour ipVersionV4
    protocolUdp 11 [0xC0A80001] [0xC0A80002] (by decide) (by decide) (by decide)).1 (by decide)
  exact ⟨hvalue.mpr (by unfold KeepsCarries; decide), hmem⟩

/-- **The rest is looked for in the next buffer.**  Five bytes of data end inside the first
buffer.  The fifth is not summed: the first byte of the second buffer is, and the zero goes behind
that one. -/
theorem n68kIpChecksumChain_reads_next :
    (∀ b ∈ eightAndFour.dropLast, b.size % 2 = 0) ∧
      5 ≤ (chainBytes eightAndFourMem eightAndFour).length ∧
      internetSum ipVersionV4 protocolIcmp ((chainBytes eightAndFourMem eightAndFour).take 5) [] []
        = 0x100 ∧
      (n68kIpChecksumChain eightAndFourMem eightAndFour ipVersionV4 protocolIcmp 5 [] []).1 =
        0x200 ∧
      endAddress eightAndFour 5 = 4101 ∧ eightAndFourMem 8193 = 2 ∧
      (n68kIpChecksumChain eightAndFourMem eightAndFour ipVersionV4 protocolIcmp 5 [] []).2 8193 =
        0 := by
  decide

end AmiNetXDuo.Net68k
