import AmiNetXDuo.Net68k.RxVerifySum

/-!
# The copy hook of the receive path

`ami_sana2_copy_to_buff` moves a frame from the device's buffer into the packet and sums it on the
way: by longwords when both ends are even, byte by byte otherwise.  Either way the slot ends up
with the bytes of the frame and with their carried sum, which is what `n68k_rx_verify_sum` asks
for.

## Main definitions

* `amiSana2CopySum` : copy and sum.
* `amiSana2CopyToBuff` : the hook.

## Main results

* `amiSana2CopySum_eq` : both ways of copying have the same effect and the same sum.
* `n68kRxVerifySum_of_amiSana2CopyToBuff` : a frame that the hook has copied is judged as the
  walking verifier judges it.
-/

namespace AmiNetXDuo.Sana2

open Net68k OnesComplement

/-- Memory `dst` with the `n` bytes from offset `i` on taken over from `src`. -/
def putBytes (dst src : Mem) (i n : Nat) : Mem := fun j ↦ if i ≤ j ∧ j < i + n then src j else dst j

theorem putBytes_zero (dst src : Mem) (i : Nat) : putBytes dst src i 0 = dst := by
  funext j
  exact if_neg (by omega)

/-- Two adjacent pieces, one after the other. -/
theorem putBytes_putBytes (dst src : Mem) (i m n : Nat) :
    putBytes (putBytes dst src i m) src (i + m) n = putBytes dst src i (m + n) := by
  funext j
  simp only [putBytes]
  split_ifs <;> first | rfl | omega

/-- The loop of `n68k_copy_sum_longwords`. -/
def copySumLongwordsLoop (dst src : Mem) (acc : ULong) (i : Nat) : Nat → Mem × ULong
  | 0 => (dst, acc)
  | count + 1 =>
      copySumLongwordsLoop (putBytes dst src i 4) src (eac acc (rd32 src i)) (i + 4) count

/-- `n68k_copy_sum_longwords`. -/
def n68kCopySumLongwords (dst src : Mem) (count : Nat) : Mem × ULong :=
  copySumLongwordsLoop dst src 0 0 count

/-- The loop of `ami_sana2_copy_sum` for odd addresses: at most four bytes at a time, through a
union that is zero where no byte has arrived. -/
def oddCopyLoop (dst src : Mem) (len : Nat) (sum : ULong) (i : Nat) : Mem × ULong :=
  if i < len then
    let n := min (len - i) 4
    oddCopyLoop (putBytes dst src i n) src len (eac sum (rd32 (src.clip (i + n)) i)) (i + 4)
  else (dst, sum)
termination_by len - i

/-- `ami_sana2_copy_sum`; the pointers are both even or not. -/
def amiSana2CopySum (even : Bool) (dst src : Mem) (len : Nat) : Mem × ULong :=
  if !even then oddCopyLoop dst src len 0 0
  else
    let words := len / 4
    let tail := len % 4
    let (dst, sum) := n68kCopySumLongwords dst src words
    if tail ≠ 0 then
      (putBytes dst src (4 * words) tail,
        eac sum (rd32 (src.clip (4 * words + tail)) (4 * words)))
    else (dst, sum)

/-- What the hook uses of an `AmiRxSlot`. -/
structure RxSlot where
  hasPacket : Bool
  /-- The address of the destination, `0` for a null pointer. -/
  dst : Nat
  capacity : Nat
  mem : Mem
  summed : Bool
  sum : ULong
  copied : Nat

/-- `ami_sana2_copy_to_buff` with a slot and a source that are not null.  The even case of the hook
is the even case of `ami_sana2_copy_sum`, written out in it. -/
def amiSana2CopyToBuff (slot : RxSlot) (src : Nat) (srcMem : Mem) (len : Nat) : Bool × RxSlot :=
  if !slot.hasPacket || slot.dst = 0 || len > slot.capacity then (false, slot)
  else
    let even := slot.dst % 2 = 0 && src % 2 = 0
    let (mem, sum) := amiSana2CopySum even slot.mem srcMem len
    (true, { slot with mem := mem, sum := sum, summed := true, copied := len })

/-! ### Copies -/

theorem copySumLongwordsLoop_eq (dst src : Mem) (acc : ULong) (i n : Nat) :
    copySumLongwordsLoop dst src acc i n =
      (putBytes dst src i (4 * n), sumLongwordsLoop src acc i n) := by
  induction n generalizing dst acc i with
  | zero => rw [copySumLongwordsLoop, sumLongwordsLoop, Nat.mul_zero, putBytes_zero]
  | succ n ih =>
      rw [copySumLongwordsLoop, ih, putBytes_putBytes, sumLongwordsLoop,
        show 4 + 4 * n = 4 * (n + 1) by omega]

/-- Zeros behind a region do not change the sum of what lies inside. -/
theorem sumLongwordsLoop_clip (p : Mem) (acc : ULong) {i n len : Nat} (h : i + 4 * n ≤ len) :
    sumLongwordsLoop (p.clip len) acc i n = sumLongwordsLoop p acc i n := by
  induction n generalizing acc i with
  | zero => rfl
  | succ n ih =>
      have hword : rd32 (p.clip len) i = rd32 p i := by
        simp only [rd32, p.clip_of_lt (show i < len by omega),
          p.clip_of_lt (show i + 1 < len by omega), p.clip_of_lt (show i + 2 < len by omega),
          p.clip_of_lt (show i + 3 < len by omega)]
      rw [sumLongwordsLoop, sumLongwordsLoop, hword, ih _ (by omega)]

theorem sumLongwordsLoop_succ (p : Mem) (acc : ULong) (i n : Nat) :
    sumLongwordsLoop p acc i (n + 1) =
      eac (sumLongwordsLoop p acc i n) (rd32 p (i + 4 * n)) := by
  induction n generalizing acc i with
  | zero => rfl
  | succ n ih =>
      rw [sumLongwordsLoop, ih, sumLongwordsLoop, show i + 4 + 4 * n = i + 4 * (n + 1) by omega]

theorem oddCopyLoop_eq (dst src : Mem) (len : Nat) (sum : ULong) (i : Nat) :
    oddCopyLoop dst src len sum i =
      (putBytes dst src i (len - i),
        sumLongwordsLoop (src.clip len) sum i ((len - i + 3) / 4)) := by
  induction dst, sum, i using oddCopyLoop.induct src len with
  | case1 dst sum i hlt n ih =>
      have hsplit : (len - i + 3) / 4 = (len - (i + 4) + 3) / 4 + 1 := by omega
      have hput : putBytes (putBytes dst src i n) src (i + 4) (len - (i + 4)) =
          putBytes dst src i (len - i) := by
        funext j
        simp only [putBytes, n]
        split_ifs <;> first | rfl | omega
      have hword : rd32 (src.clip (i + n)) i = rd32 (src.clip len) i := by
        have hbyte (j : Nat) (hj : j < i + 4) : src.clip (i + n) j = src.clip len j := by
          simp only [Mem.clip, n]
          split_ifs <;> first | rfl | omega
        simp only [rd32, hbyte i (by omega), hbyte (i + 1) (by omega), hbyte (i + 2) (by omega),
          hbyte (i + 3) (by omega)]
      rw [oddCopyLoop, if_pos hlt, ih, hput, hword, hsplit]
      rfl
  | case2 dst sum i hge =>
      rw [oddCopyLoop, if_neg hge, show len - i = 0 by omega, putBytes_zero]
      rfl

/-- **Both ways of copying do the same**: the bytes arrive, and the sum is the carried sum. -/
theorem amiSana2CopySum_eq (even : Bool) (dst src : Mem) (len : Nat) :
    amiSana2CopySum even dst src len = (putBytes dst src 0 len, carriedSum src len) := by
  cases even with
  | false =>
      simp only [amiSana2CopySum, Bool.not_false, if_true, oddCopyLoop_eq, Nat.sub_zero]
      rfl
  | true =>
      have hclip := sumLongwordsLoop_clip src 0 (show 0 + 4 * (len / 4) ≤ len by omega)
      simp only [amiSana2CopySum, Bool.not_true, Bool.false_eq_true, if_false,
        n68kCopySumLongwords, copySumLongwordsLoop_eq, carriedSum, n68kSumLongwords]
      split_ifs with htail
      · have hput := putBytes_putBytes dst src 0 (4 * (len / 4)) (len % 4)
        rw [Nat.zero_add, Nat.div_add_mod] at hput
        rw [show (len + 3) / 4 = len / 4 + 1 by omega, sumLongwordsLoop_succ, hclip, hput,
          Nat.div_add_mod, Nat.zero_add]
      · rw [show (len + 3) / 4 = len / 4 by omega, hclip, show 4 * (len / 4) = len by omega]

theorem carriedSum_congr {p q : Mem} {len : Nat} (h : ∀ i < len, p i = q i) :
    carriedSum p len = carriedSum q len := by
  have hclip : p.clip len = q.clip len := by
    funext i
    unfold Mem.clip
    split_ifs with hi
    · exact h i hi
    · rfl
  rw [carriedSum, carriedSum, hclip]

/-- **A frame that the hook has copied is judged as the walk judges it.**  Its packet starts where
the hook wrote, on a longword. -/
theorem n68kRxVerifySum_of_amiSana2CopyToBuff {slot slot' : RxSlot} {src len : Nat} {srcMem : Mem}
    {packet : RxPacket} (h : amiSana2CopyToBuff slot src srcMem len = (true, slot'))
    (hmem : packet.mem = slot'.mem) (haligned : packet.prepend % 4 = 0) :
    slot'.summed = true ∧
      n68kRxVerifySum packet slot'.sum slot'.copied = n68kRxVerify packet := by
  unfold amiSana2CopyToBuff at h
  split_ifs at h
  · cases h
  · simp only [amiSana2CopySum_eq, Prod.mk.injEq, true_and] at h
    subst h
    refine ⟨rfl, ?_⟩
    have hsum : carriedSum srcMem len = carriedSum packet.mem len :=
      carriedSum_congr fun i hi ↦ by simp [hmem, putBytes, hi]
    rw [hsum]
    exact n68kRxVerifySum_carriedSum haligned len

/-- A slot that the next read may fill. -/
def emptySlot : RxSlot := ⟨true, 0x10000, 1514, fun _ ↦ 0, false, 0, 0⟩

/-- A device hands over a datagram at an odd address. -/
theorem n68kRxVerifySum_of_amiSana2CopyToBuff_odd :
    ∃ slot', amiSana2CopyToBuff emptySlot 0x2001 udpFrame.mem 31 = (true, slot') ∧
      slot'.summed = true ∧ n68kRxVerifySum { udpFrame with mem := slot'.mem } slot'.sum
        slot'.copied = n68kRxVerify { udpFrame with mem := slot'.mem } := by
  have hcopy : (amiSana2CopyToBuff emptySlot 0x2001 udpFrame.mem 31).1 = true := by
    simp [amiSana2CopyToBuff, emptySlot]
  obtain ⟨slot', hslot⟩ : ∃ slot', amiSana2CopyToBuff emptySlot 0x2001 udpFrame.mem 31 =
      (true, slot') := ⟨_, Prod.ext hcopy rfl⟩
  have haligned : udpFrame.prepend % 4 = 0 := by decide
  exact ⟨slot', hslot, n68kRxVerifySum_of_amiSana2CopyToBuff hslot rfl haligned⟩

end AmiNetXDuo.Sana2
