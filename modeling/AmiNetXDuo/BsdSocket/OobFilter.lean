import AmiNetXDuo.Basic
import AmiNetXDuo.Lib.WordSum
import Mathlib.Tactic.IntervalCases

/-!
# The out-of-band filter

`send(MSG_OOB)` has no way to ask the stack for an urgent segment. It arms a mark and has the
stack's IP filter rewrite the one segment that the mark names, with `bsd_oob_ip_filter()` of
`src/bsdsocket/oob.c`: the URG flag goes in, the urgent pointer becomes 1, and the TCP checksum is
brought up to date from the two words that changed, by equation 3 of RFC 1624.

The second update takes the urgent pointer to have been 0. So the checksum stays right for a
segment whose urgent pointer spells zero, as the stack builds every one of its own.

## Main definitions

* `bsdOobCsumUpdate`, `bsdOobIpFilter` : the functions of the source.
* `TcpVerifies` : the receiver's checksum test over the pseudo header and the segment.

## Main results

* `bsdOobCsumUpdate_modEq` : one update, modulo `65535`.
* `bsdOobIpFilter_tcpVerifies` : a rewritten segment passes the test as before, differs in three
  fields, and no other packet is touched.
-/

namespace AmiNetXDuo.BsdSocket

open OnesComplement

/-! ### Words of a packet -/

/-- The byte at an index of a packet. -/
def byteAt (p : List UByte) (i : Nat) : UByte := p.getD i 0

/-- The 16-bit word in network order at an index. -/
def be16 (p : List UByte) (i : Nat) : UWord :=
  (byteAt p i).setWidth 16 <<< 8 ||| (byteAt p (i + 1)).setWidth 16

/-- The 32-bit word in network order at an index. -/
def be32 (p : List UByte) (i : Nat) : ULong :=
  (byteAt p i).setWidth 32 <<< 24 ||| (byteAt p (i + 1)).setWidth 32 <<< 16 |||
    (byteAt p (i + 2)).setWidth 32 <<< 8 ||| (byteAt p (i + 3)).setWidth 32

/-- A 16-bit word stored in network order. -/
def put16 (p : List UByte) (i : Nat) (w : UWord) : List UByte :=
  (p.set i ((w >>> 8).setWidth 8)).set (i + 1) (w.setWidth 8)

theorem toNat_be16 (p : List UByte) (i : Nat) :
    (be16 p i).toNat = (byteAt p i).toNat * 256 + (byteAt p (i + 1)).toNat := by
  have ha := (byteAt p i).isLt
  have hb := (byteAt p (i + 1)).isLt
  have hor : (byteAt p i).toNat <<< 8 ||| (byteAt p (i + 1)).toNat =
      (byteAt p i).toNat * 256 + (byteAt p (i + 1)).toNat := by
    rw [← Nat.shiftLeft_add_eq_or_of_lt hb, Nat.shiftLeft_eq]
  rw [be16, BitVec.toNat_or, BitVec.toNat_shiftLeft, BitVec.toNat_setWidth, BitVec.toNat_setWidth,
    Nat.mod_eq_of_lt (show (byteAt p i).toNat < 2 ^ 16 by omega),
    Nat.mod_eq_of_lt (show (byteAt p (i + 1)).toNat < 2 ^ 16 by omega), Nat.mod_eq_of_lt ?_, hor]
  rw [Nat.shiftLeft_eq]
  omega

@[simp] theorem length_put16 (p : List UByte) (i : Nat) (w : UWord) :
    (put16 p i w).length = p.length := by
  rw [put16, List.length_set, List.length_set]

theorem byteAt_put16_of_ne {p : List UByte} {i j : Nat} (h : j ≠ i) (h' : j ≠ i + 1) (w : UWord) :
    byteAt (put16 p i w) j = byteAt p j := by
  rw [byteAt, byteAt, put16, List.getD_eq_getElem?_getD, List.getElem?_set_ne h'.symm,
    List.getElem?_set_ne h.symm, List.getD_eq_getElem?_getD]

theorem byteAt_put16_low {p : List UByte} {i : Nat} (h : i + 1 < p.length) (w : UWord) :
    byteAt (put16 p i w) (i + 1) = w.setWidth 8 := by
  rw [byteAt, put16, List.getD_eq_getElem?_getD,
    List.getElem?_set_self (by rw [List.length_set]; exact h), Option.getD_some]

theorem byteAt_put16_high {p : List UByte} {i : Nat} (h : i + 1 < p.length) (w : UWord) :
    byteAt (put16 p i w) i = (w >>> 8).setWidth 8 := by
  rw [byteAt, put16, List.getD_eq_getElem?_getD, List.getElem?_set_ne (by omega),
    List.getElem?_set_self (by omega), Option.getD_some]

theorem be16_put16_of_disjoint {p : List UByte} {i j : Nat} (h : j + 1 < i ∨ i + 1 < j)
    (w : UWord) : be16 (put16 p i w) j = be16 p j := by
  rw [be16, be16, byteAt_put16_of_ne (by omega) (by omega),
    byteAt_put16_of_ne (by omega) (by omega)]

theorem take_put16_of_le {p : List UByte} {i n : Nat} (h : n ≤ i) (w : UWord) :
    (put16 p i w).take n = p.take n := by
  rw [put16, List.take_set_of_le (by omega), List.take_set_of_le h]

/-- Inside a piece of a packet, a word is stored at its place in the piece. -/
theorem drop_take_put16 (p : List UByte) (k i n : Nat) (w : UWord) :
    ((put16 p (k + i) w).take n).drop k = put16 ((p.take n).drop k) i w := by
  rw [put16, put16, List.take_set, List.take_set, List.drop_set, List.drop_set,
    if_neg (by omega), if_neg (by omega), show k + i + 1 - k = i + 1 by omega,
    Nat.add_sub_cancel_left]

/-- A word stored on an even index takes the place of the old one in the sum. -/
theorem wordSum_put16 {p : List UByte} {i : Nat} (heven : i % 2 = 0) (h : i + 1 < p.length)
    (w : UWord) : wordSum (put16 p i w) + (be16 p i).toNat = wordSum p + w.toNat := by
  induction p using wordSum.induct generalizing i with
  | case1 => simp at h
  | case2 b =>
      rw [List.length_singleton] at h
      omega
  | case3 a b bytes ih =>
      have hw := w.isLt
      obtain rfl | ⟨j, rfl⟩ : i = 0 ∨ ∃ j, i = j + 2 := by
        rcases i with _ | _ | j
        · exact .inl rfl
        · omega
        · exact .inr ⟨j, rfl⟩
      · have hhigh : ((w >>> 8).setWidth 8).toNat * 256 + (w.setWidth 8).toNat = w.toNat := by
          rw [BitVec.toNat_setWidth, BitVec.toNat_setWidth, BitVec.toNat_ushiftRight,
            Nat.shiftRight_eq_div_pow]
          omega
        have hput : put16 (a :: b :: bytes) 0 w =
            (w >>> 8).setWidth 8 :: w.setWidth 8 :: bytes := rfl
        have hword : (be16 (a :: b :: bytes) 0).toNat = a.toNat * 256 + b.toNat := toNat_be16 _ _
        rw [hput, hword, wordSum, wordSum, hhigh]
        ac_rfl
      · have hlen : j + 1 < bytes.length := by
          rw [List.length_cons, List.length_cons] at h
          omega
        have hput : put16 (a :: b :: bytes) (j + 2) w = a :: b :: put16 bytes j w := rfl
        have hword : be16 (a :: b :: bytes) (j + 2) = be16 bytes j := rfl
        have hrest := ih (by omega) hlen
        rw [hput, hword, wordSum, wordSum]
        omega

/-! ### The update of a checksum -/

/-- The loop of `bsd_oob_csum_update()`. -/
def csumFold (sum : ULong) : ULong :=
  if _h : sum >>> 16 = 0 then sum else csumFold (foldStep sum)
termination_by sum.toNat
decreasing_by
  have hne : (sum >>> 16).toNat ≠ 0 := fun h ↦ _h (BitVec.eq_of_toNat_eq h)
  rw [toNat_high] at hne
  rw [toNat_foldStep]
  omega

theorem foldStep_of_high_eq_zero {s : ULong} (h : s >>> 16 = 0) : foldStep s = s := by
  have hzero : (s >>> 16).toNat = 0 := by rw [h]; rfl
  rw [toNat_high] at hzero
  apply BitVec.eq_of_toNat_eq
  rw [toNat_foldStep]
  omega

/-- The loop makes two steps at most. -/
theorem csumFold_eq (s : ULong) : csumFold s = fold s := by
  have hs := s.isLt
  by_cases h₁ : s >>> 16 = 0
  · rw [csumFold, dif_pos h₁, fold, foldStep_of_high_eq_zero h₁, foldStep_of_high_eq_zero h₁]
  · rw [csumFold, dif_neg h₁]
    by_cases h₂ : foldStep s >>> 16 = 0
    · rw [csumFold, dif_pos h₂, fold, foldStep_of_high_eq_zero h₂]
    · have h₃ : foldStep (foldStep s) >>> 16 = 0 := by
        apply BitVec.eq_of_toNat_eq
        rw [toNat_high, toNat_foldStep, toNat_foldStep]
        change _ = 0
        omega
      rw [csumFold, dif_neg h₂, csumFold, dif_pos h₃, fold]

/-- `bsd_oob_csum_update()`. -/
def bsdOobCsumUpdate (hc oldWord newWord : UWord) : UWord :=
  let sum := (~~~hc).setWidth 32 + (~~~oldWord).setWidth 32 + newWord.setWidth 32
  ~~~((csumFold sum).setWidth 16)

/-- **RFC 1624, equation 3**: an update makes up for the word that changed, whatever the words. -/
theorem bsdOobCsumUpdate_modEq (hc oldWord newWord : UWord) :
    (bsdOobCsumUpdate hc oldWord newWord).toNat + newWord.toNat ≡
      hc.toNat + oldWord.toNat [MOD 65535] := by
  have h₁ := hc.isLt
  have h₂ := oldWord.isLt
  have h₃ := newWord.isLt
  have hsum : ((~~~hc).setWidth 32 + (~~~oldWord).setWidth 32 + newWord.setWidth 32).toNat =
      65535 - hc.toNat + (65535 - oldWord.toNat) + newWord.toNat := by
    rw [BitVec.toNat_add, BitVec.toNat_add, BitVec.toNat_setWidth, BitVec.toNat_setWidth,
      BitVec.toNat_setWidth, BitVec.toNat_not, BitVec.toNat_not]
    omega
  have hle := toNat_fold_le ((~~~hc).setWidth 32 + (~~~oldWord).setWidth 32 + newWord.setWidth 32)
  have hmod := fold_modEq ((~~~hc).setWidth 32 + (~~~oldWord).setWidth 32 + newWord.setWidth 32)
  rw [hsum] at hmod
  rw [bsdOobCsumUpdate, csumFold_eq, BitVec.toNat_not, BitVec.toNat_setWidth,
    Nat.mod_eq_of_lt (show _ < 2 ^ 16 by omega)]
  unfold Nat.ModEq at hmod ⊢
  omega

/-! ### The filter -/

/-- `struct BsdOobMark`: the segment that the filter looks for, and whether its checksum is left to
the driver. -/
structure BsdOobMark where
  active : Bool
  localPort : ULong
  peerPort : ULong
  sequence : ULong
  offload : Bool

/-- Which way a packet goes, as the stack tells its filter. -/
inductive IpDirection
  | packetIn
  | packetOut
deriving DecidableEq

/-- The version of an IP header. -/
def ipVersion (ip : List UByte) : UByte := byteAt ip 0 >>> 4

/-- The length of an IPv4 header. -/
def ipHeaderLength (ip : List UByte) : Nat := (byteAt ip 0 &&& 0x0F).toNat * 4

/-- The mark names this packet: an IPv4 segment out, of its ports and its sequence number, with a
byte of payload and without URG. -/
def BsdOobMark.Names (mark : BsdOobMark) (direction : IpDirection) (ip : List UByte) : Prop :=
  (direction = .packetOut ∧ mark.active = true) ∧ ipVersion ip = 4 ∧ 20 ≤ ipHeaderLength ip ∧
    byteAt ip 9 = 6 ∧
    ((be16 ip (ipHeaderLength ip)).setWidth 32 = mark.localPort ∧
      (be16 ip (ipHeaderLength ip + 2)).setWidth 32 = mark.peerPort ∧
      be32 ip (ipHeaderLength ip + 4) = mark.sequence) ∧
    ipHeaderLength ip + (byteAt ip (ipHeaderLength ip + 12) >>> 4).toNat * 4 + 1 ≤
      (be16 ip 2).toNat ∧
    be16 ip (ipHeaderLength ip + 12) &&& 0x0020 = 0

instance (mark : BsdOobMark) (direction : IpDirection) (ip : List UByte) :
    Decidable (mark.Names direction ip) := by
  unfold BsdOobMark.Names
  infer_instance

/-- What the filter writes into the segment at `tcp`. -/
def oobRewrite (offload : Bool) (ip : List UByte) (tcp : Nat) : List UByte :=
  let flags := be16 ip (tcp + 12) ||| 0x0020
  let ip := put16 (put16 ip (tcp + 12) flags) (tcp + 18) 1
  if offload then ip
  else
    let checksum := be16 ip (tcp + 16)
    let checksum := bsdOobCsumUpdate checksum (flags &&& ~~~0x0020) flags
    let checksum := bsdOobCsumUpdate checksum 0 1
    put16 ip (tcp + 16) checksum

/-- `bsd_oob_ip_filter()`: the packet as it leaves it. The filter has no other answer than
`NX_SUCCESS`. -/
def bsdOobIpFilter (mark : BsdOobMark) (direction : IpDirection) (ip : List UByte) : List UByte :=
  if direction ≠ .packetOut ∨ mark.active = false then ip
  else if ipVersion ip ≠ 4 then ip
  else
    let ihl := ipHeaderLength ip
    if ihl < 20 then ip
    else if byteAt ip 9 ≠ 6 then ip
    else
      let sport := be16 ip ihl
      let dport := be16 ip (ihl + 2)
      let seq := be32 ip (ihl + 4)
      if sport.setWidth 32 ≠ mark.localPort ∨ dport.setWidth 32 ≠ mark.peerPort ∨
          seq ≠ mark.sequence then ip
      else
        let totalLen := (be16 ip 2).toNat
        let dataOff := (byteAt ip (ihl + 12) >>> 4).toNat * 4
        if totalLen < ihl + dataOff + 1 then ip
        else if be16 ip (ihl + 12) &&& 0x0020 ≠ 0 then ip
        else oobRewrite mark.offload ip ihl

/-- The filter rewrites the packet that its mark names, and no other. -/
theorem bsdOobIpFilter_eq (mark : BsdOobMark) (direction : IpDirection) (ip : List UByte) :
    bsdOobIpFilter mark direction ip =
      if mark.Names direction ip then oobRewrite mark.offload ip (ipHeaderLength ip) else ip := by
  unfold bsdOobIpFilter BsdOobMark.Names
  grind

/-! ### The rewritten segment -/

theorem oobRewrite_true (ip : List UByte) (tcp : Nat) :
    oobRewrite true ip tcp =
      put16 (put16 ip (tcp + 12) (be16 ip (tcp + 12) ||| 0x0020)) (tcp + 18) 1 := rfl

/-- Without offload the checksum is stored besides. -/
theorem oobRewrite_false (ip : List UByte) (tcp : Nat) :
    oobRewrite false ip tcp =
      put16 (oobRewrite true ip tcp) (tcp + 16)
        (bsdOobCsumUpdate
          (bsdOobCsumUpdate (be16 (oobRewrite true ip tcp) (tcp + 16))
            ((be16 ip (tcp + 12) ||| 0x0020) &&& ~~~0x0020) (be16 ip (tcp + 12) ||| 0x0020))
          0 1) := rfl

@[simp] theorem length_oobRewrite (offload : Bool) (ip : List UByte) (tcp : Nat) :
    (oobRewrite offload ip tcp).length = ip.length := by
  have htrue : (oobRewrite true ip tcp).length = ip.length := by
    rw [oobRewrite_true, length_put16, length_put16]
  cases offload with
  | true => exact htrue
  | false => rw [oobRewrite_false, length_put16, htrue]

/-- A byte outside the flags, the checksum and the urgent pointer stays. -/
theorem byteAt_oobRewrite_of_ne (offload : Bool) (ip : List UByte) (tcp : Nat) {i : Nat}
    (h : i ≠ tcp + 12 ∧ i ≠ tcp + 13 ∧ ¬(tcp + 16 ≤ i ∧ i < tcp + 20)) :
    byteAt (oobRewrite offload ip tcp) i = byteAt ip i := by
  have htrue : byteAt (oobRewrite true ip tcp) i = byteAt ip i := by
    rw [oobRewrite_true, byteAt_put16_of_ne (by omega) (by omega),
      byteAt_put16_of_ne (by omega) (by omega)]
  cases offload with
  | true => exact htrue
  | false => rw [oobRewrite_false, byteAt_put16_of_ne (by omega) (by omega), htrue]

theorem be16_oobRewrite_of_lt (offload : Bool) (ip : List UByte) {tcp i : Nat}
    (h : i + 1 < tcp + 12) : be16 (oobRewrite offload ip tcp) i = be16 ip i := by
  rw [be16, be16, byteAt_oobRewrite_of_ne offload ip tcp (by omega),
    byteAt_oobRewrite_of_ne offload ip tcp (by omega)]

theorem take_oobRewrite (offload : Bool) (ip : List UByte) {tcp n : Nat} (h : n ≤ tcp + 12) :
    (oobRewrite offload ip tcp).take n = ip.take n := by
  have htrue : (oobRewrite true ip tcp).take n = ip.take n := by
    rw [oobRewrite_true, take_put16_of_le (by omega), take_put16_of_le h]
  cases offload with
  | true => exact htrue
  | false => rw [oobRewrite_false, take_put16_of_le (by omega), htrue]

/-- The checksum is stored apart from the flags and the urgent pointer. -/
theorem byteAt_oobRewrite_eq_true (offload : Bool) (ip : List UByte) {tcp i : Nat}
    (h : i ≠ tcp + 16 ∧ i ≠ tcp + 17) :
    byteAt (oobRewrite offload ip tcp) i = byteAt (oobRewrite true ip tcp) i := by
  cases offload with
  | true => rfl
  | false => rw [oobRewrite_false, byteAt_put16_of_ne (by omega) (by omega)]

/-- The flags as the filter leaves them: URG in the low byte, the high byte as it was. -/
theorem byteAt_oobRewrite_flags (offload : Bool) {ip : List UByte} {tcp : Nat}
    (h : tcp + 20 ≤ ip.length) :
    byteAt (oobRewrite offload ip tcp) (tcp + 12) = byteAt ip (tcp + 12) ∧
      byteAt (oobRewrite offload ip tcp) (tcp + 13) = byteAt ip (tcp + 13) ||| 0x20 := by
  have hhigh (a b : UByte) :
      (((a.setWidth 16 <<< 8 ||| b.setWidth 16) ||| 0x0020#16) >>> 8).setWidth 8 = a := by
    ext i hi
    simp only [BitVec.getElem_setWidth, BitVec.getLsbD_ushiftRight, BitVec.getLsbD_or]
    interval_cases i <;> simp [BitVec.getLsbD_of_ge]
  have hlow (a b : UByte) :
      ((a.setWidth 16 <<< 8 ||| b.setWidth 16) ||| 0x0020#16).setWidth 8 = b ||| 0x20 := by
    ext i hi
    simp only [BitVec.getElem_setWidth, BitVec.getLsbD_or]
    interval_cases i <;> simp
  constructor
  · rw [byteAt_oobRewrite_eq_true _ _ (by omega), oobRewrite_true,
      byteAt_put16_of_ne (by omega) (by omega), byteAt_put16_high (by omega)]
    exact hhigh _ _
  · rw [byteAt_oobRewrite_eq_true _ _ (by omega), oobRewrite_true,
      byteAt_put16_of_ne (by omega) (by omega), byteAt_put16_low (by omega)]
    exact hlow _ _

/-- The urgent pointer as the filter leaves it. -/
theorem be16_oobRewrite_urgent (offload : Bool) {ip : List UByte} {tcp : Nat}
    (h : tcp + 20 ≤ ip.length) : be16 (oobRewrite offload ip tcp) (tcp + 18) = 1 := by
  have hhigh : byteAt (oobRewrite offload ip tcp) (tcp + 18) = 0 := by
    rw [byteAt_oobRewrite_eq_true _ _ (by omega), oobRewrite_true,
      byteAt_put16_high (by rw [length_put16]; omega)]
    rfl
  have hlow : byteAt (oobRewrite offload ip tcp) (tcp + 18 + 1) = 1 := by
    rw [byteAt_oobRewrite_eq_true _ _ (by omega), oobRewrite_true,
      byteAt_put16_low (by rw [length_put16]; omega)]
    rfl
  rw [be16, hhigh, hlow]
  rfl

/-! ### The receiver's test -/

/-- Where the IP datagram ends that starts a packet. -/
def ipEnd (ip : List UByte) : Nat :=
  if ipVersion ip = 4 then (be16 ip 2).toNat else 40 + (be16 ip 4).toNat

/-- The two addresses of an IP header. -/
def ipAddresses (ip : List UByte) : List UByte :=
  if ipVersion ip = 4 then (ip.take 20).drop 12 else (ip.take 40).drop 8

/-- The TCP segment at `tcp`, to the end of its datagram. -/
def tcpSegment (ip : List UByte) (tcp : Nat) : List UByte := (ip.take (ipEnd ip)).drop tcp

/-- The words that the checksum of the segment at `tcp` is over, added up: the pseudo header
(addresses, protocol and length) and the segment. -/
def tcpSum (ip : List UByte) (tcp : Nat) : Nat :=
  wordSum (ipAddresses ip) + 6 + (tcpSegment ip tcp).length + wordSum (tcpSegment ip tcp)

/-- The packet is a whole IP datagram with a TCP header at `tcp`, and the checksum of the segment
verifies. An IPv4 header ends where the segment starts; in front of an IPv6 segment any extension
headers may stand. -/
def TcpVerifies (ip : List UByte) (tcp : Nat) : Prop :=
  (ipVersion ip = 4 → 20 ≤ ipHeaderLength ip ∧ tcp = ipHeaderLength ip) ∧
    tcp + 20 ≤ ipEnd ip ∧ ipEnd ip ≤ ip.length ∧ onesSum (tcpSum ip tcp) = 0xFFFF

instance (ip : List UByte) (tcp : Nat) : Decidable (TcpVerifies ip tcp) := by
  unfold TcpVerifies
  infer_instance

theorem onesSum_eq_ffff_iff (n : Nat) : onesSum n = 0xFFFF ↔ n ≠ 0 ∧ n ≡ 0 [MOD 65535] := by
  by_cases hn : n = 0
  · rw [onesSum, if_pos hn]
    exact ⟨fun h ↦ absurd h (by decide), fun h ↦ absurd hn h.1⟩
  · rw [onesSum, if_neg hn]
    unfold Nat.ModEq
    omega

/-- Taking the new flag out again gives the flags as they were. -/
theorem flags_and_not_urg {flags : UWord} (h : flags &&& 0x0020 = 0) :
    (flags ||| 0x0020) &&& ~~~0x0020 = flags := by
  have hbit : flags.getLsbD 5 = false := by
    have h5 := congrArg (fun w : UWord ↦ w.getLsbD 5) h
    simpa using h5
  ext i hi
  simp only [BitVec.getElem_and, BitVec.getElem_or, BitVec.getElem_not]
  interval_cases i <;> simp_all [BitVec.getLsbD_eq_getElem]

/-- The sum over a rewritten segment: the old urgent pointer is what it lost. -/
theorem wordSum_tcpSegment_oobRewrite {ip : List UByte} {tcp n : Nat}
    (hurg : be16 ip (tcp + 12) &&& 0x0020 = 0) (hn : n ≤ ip.length) (h : tcp + 20 ≤ n) :
    wordSum (((oobRewrite false ip tcp).take n).drop tcp) + (be16 ip (tcp + 18)).toNat ≡
      wordSum ((ip.take n).drop tcp) [MOD 65535] := by
  have hseg {i : Nat} (hi : i + 1 < 20) : be16 ((ip.take n).drop tcp) i = be16 ip (tcp + i) := by
    have hb {j : Nat} (hj : j < 20) : byteAt ((ip.take n).drop tcp) j = byteAt ip (tcp + j) := by
      rw [byteAt, byteAt, List.getD_eq_getElem?_getD, List.getD_eq_getElem?_getD,
        List.getElem?_drop, List.getElem?_take_of_lt (by omega)]
    rw [be16, be16, hb (by omega), hb (by omega), Nat.add_assoc]
  have hlen : 20 ≤ ((ip.take n).drop tcp).length := by
    rw [List.length_drop, List.length_take]
    omega
  generalize hflags : be16 ip (tcp + 12) = flags at hurg
  generalize hold : be16 ip (tcp + 16) = hc
  have hstored : ((oobRewrite false ip tcp).take n).drop tcp =
      put16 (put16 (put16 ((ip.take n).drop tcp) 12 (flags ||| 0x0020)) 18 1) 16
        (bsdOobCsumUpdate (bsdOobCsumUpdate hc flags (flags ||| 0x0020)) 0 1) := by
    rw [oobRewrite_false, oobRewrite_true, be16_put16_of_disjoint (by omega),
      be16_put16_of_disjoint (by omega), hflags, hold, flags_and_not_urg hurg, drop_take_put16,
      drop_take_put16, drop_take_put16]
  -- Each of the three words takes the place of the word that stood there.
  have hsum₁ := wordSum_put16 (p := (ip.take n).drop tcp) (i := 12) (by decide) (by omega)
    (flags ||| 0x0020)
  have hsum₂ := wordSum_put16 (p := put16 ((ip.take n).drop tcp) 12 (flags ||| 0x0020)) (i := 18)
    (by decide) (by rw [length_put16]; omega) 1
  have hsum₃ := wordSum_put16
    (p := put16 (put16 ((ip.take n).drop tcp) 12 (flags ||| 0x0020)) 18 1) (i := 16)
    (by decide) (by rw [length_put16, length_put16]; omega)
    (bsdOobCsumUpdate (bsdOobCsumUpdate hc flags (flags ||| 0x0020)) 0 1)
  rw [hseg (by omega), hflags] at hsum₁
  rw [be16_put16_of_disjoint (by omega), hseg (by omega)] at hsum₂
  rw [be16_put16_of_disjoint (by omega), be16_put16_of_disjoint (by omega), hseg (by omega),
    hold] at hsum₃
  have hup₁ := bsdOobCsumUpdate_modEq hc flags (flags ||| 0x0020)
  have hup₂ := bsdOobCsumUpdate_modEq (bsdOobCsumUpdate hc flags (flags ||| 0x0020)) 0 1
  rw [hstored]
  rw [show (1 : UWord).toNat = 1 from rfl] at hsum₂ hup₂
  rw [show (0 : UWord).toNat = 0 from rfl] at hup₂
  unfold Nat.ModEq at hup₁ hup₂ ⊢
  omega

/-- A segment that the filter has rewritten still verifies exactly when its urgent pointer spelled
zero. -/
theorem tcpVerifies_oobRewrite {ip : List UByte} (hversion : ipVersion ip = 4)
    (hurg : be16 ip (ipHeaderLength ip + 12) &&& 0x0020 = 0)
    (h : TcpVerifies ip (ipHeaderLength ip)) :
    TcpVerifies (oobRewrite false ip (ipHeaderLength ip)) (ipHeaderLength ip) ↔
      be16 ip (ipHeaderLength ip + 18) = 0 ∨ be16 ip (ipHeaderLength ip + 18) = 0xFFFF := by
  obtain ⟨hstart, hroom, hend, hsum⟩ := h
  have hmin := (hstart hversion).1
  have hfirst : byteAt (oobRewrite false ip (ipHeaderLength ip)) 0 = byteAt ip 0 :=
    byteAt_oobRewrite_of_ne _ _ _ (by omega)
  have hver : ipVersion (oobRewrite false ip (ipHeaderLength ip)) = ipVersion ip := by
    rw [ipVersion, hfirst, ipVersion]
  have hihl : ipHeaderLength (oobRewrite false ip (ipHeaderLength ip)) = ipHeaderLength ip := by
    rw [ipHeaderLength, hfirst, ipHeaderLength]
  have hstop : ipEnd (oobRewrite false ip (ipHeaderLength ip)) = ipEnd ip := by
    rw [ipEnd, hver, be16_oobRewrite_of_lt _ _ (by omega), be16_oobRewrite_of_lt _ _ (by omega),
      ipEnd]
  have haddr : ipAddresses (oobRewrite false ip (ipHeaderLength ip)) = ipAddresses ip := by
    rw [ipAddresses, ipAddresses, hver, if_pos hversion, if_pos hversion,
      take_oobRewrite _ _ (by omega)]
  have hmod := wordSum_tcpSegment_oobRewrite hurg hend hroom
  have hzero : be16 ip (ipHeaderLength ip + 18) = 0 ∨ be16 ip (ipHeaderLength ip + 18) = 0xFFFF ↔
      (be16 ip (ipHeaderLength ip + 18)).toNat ≡ 0 [MOD 65535] := by
    have hlt := (be16 ip (ipHeaderLength ip + 18)).isLt
    rw [← BitVec.toNat_inj, ← BitVec.toNat_inj, show (0 : UWord).toNat = 0 from rfl,
      show (0xFFFF : UWord).toNat = 65535 from rfl, Nat.ModEq]
    omega
  rw [onesSum_eq_ffff_iff, tcpSum, tcpSegment, List.length_drop, List.length_take] at hsum
  rw [hzero]
  constructor
  · rintro ⟨-, -, -, hsum'⟩
    rw [onesSum_eq_ffff_iff, tcpSum, tcpSegment, haddr, hstop, List.length_drop, List.length_take,
      length_oobRewrite] at hsum'
    unfold Nat.ModEq at hmod hsum hsum' ⊢
    omega
  · intro hptr
    refine ⟨fun _ ↦ ⟨by rw [hihl]; exact hmin, hihl.symm⟩, by rw [hstop]; exact hroom,
      by rw [hstop, length_oobRewrite]; exact hend, ?_⟩
    rw [onesSum_eq_ffff_iff, tcpSum, tcpSegment, haddr, hstop, List.length_drop, List.length_take,
      length_oobRewrite]
    unfold Nat.ModEq at hmod hptr hsum ⊢
    omega

/-- **The out-of-band filter.**  A segment whose checksum verifies, whose checksum is not left to
the driver and whose urgent pointer spells zero goes on verifying. The packet that the mark names
comes out with URG set and urgent pointer 1, and differs in these and the checksum only. Every
other packet comes out as it went in. With another urgent pointer the packet that the mark names
has a wrong checksum. -/
theorem bsdOobIpFilter_tcpVerifies (mark : BsdOobMark) (direction : IpDirection)
    (ip : List UByte) :
    (∀ tcp, TcpVerifies ip tcp → mark.offload = false →
      (be16 ip (tcp + 18) = 0 ∨ be16 ip (tcp + 18) = 0xFFFF) →
      TcpVerifies (bsdOobIpFilter mark direction ip) tcp) ∧
    (mark.Names direction ip → ipHeaderLength ip + 20 ≤ ip.length →
      byteAt (bsdOobIpFilter mark direction ip) (ipHeaderLength ip + 13) =
          byteAt ip (ipHeaderLength ip + 13) ||| 0x20 ∧
        be16 (bsdOobIpFilter mark direction ip) (ipHeaderLength ip + 18) = 1 ∧
        (bsdOobIpFilter mark direction ip).length = ip.length ∧
        ∀ i, i ≠ ipHeaderLength ip + 13 →
          ¬(ipHeaderLength ip + 16 ≤ i ∧ i < ipHeaderLength ip + 20) →
          byteAt (bsdOobIpFilter mark direction ip) i = byteAt ip i) ∧
    (¬mark.Names direction ip → bsdOobIpFilter mark direction ip = ip) ∧
    ∀ tcp, TcpVerifies ip tcp → mark.Names direction ip → mark.offload = false →
      ¬(be16 ip (tcp + 18) = 0 ∨ be16 ip (tcp + 18) = 0xFFFF) →
      ¬TcpVerifies (bsdOobIpFilter mark direction ip) tcp := by
  rw [bsdOobIpFilter_eq]
  refine ⟨fun tcp h hoff hptr ↦ ?_, fun hnames hlen ↦ ?_, fun h ↦ if_neg h,
    fun tcp h hnames hoff hptr ↦ ?_⟩
  · split_ifs with hnames
    · have hversion : ipVersion ip = 4 := hnames.2.1
      obtain rfl : tcp = ipHeaderLength ip := (h.1 hversion).2
      rw [hoff]
      exact (tcpVerifies_oobRewrite hversion hnames.2.2.2.2.2.2 h).mpr hptr
    · exact h
  · rw [if_pos hnames]
    obtain ⟨hhigh, hlow⟩ := byteAt_oobRewrite_flags mark.offload hlen
    refine ⟨hlow, be16_oobRewrite_urgent mark.offload hlen, length_oobRewrite _ _ _,
      fun i hne hout ↦ ?_⟩
    by_cases hi : i = ipHeaderLength ip + 12
    · rw [hi]
      exact hhigh
    · exact byteAt_oobRewrite_of_ne _ _ _ ⟨hi, hne, hout⟩
  · obtain rfl : tcp = ipHeaderLength ip := (h.1 hnames.2.1).2
    rw [if_pos hnames, hoff, tcpVerifies_oobRewrite hnames.2.1 hnames.2.2.2.2.2.2 h]
    exact hptr

/-- An IPv4 segment with one byte of payload, by its checksum and its urgent pointer. -/
def oneByteSegment (checksum urgent : UWord) : List UByte :=
  put16 (put16
    [0x45, 0, 0, 41, 0, 0, 0, 0, 64, 6, 0, 0, 10, 0, 0, 1, 10, 0, 0, 2,
      4, 0, 0, 80, 0, 0, 0, 1, 0, 0, 0, 2, 0x50, 0x18, 0x20, 0, 0, 0, 0, 0, 0x41]
    36 checksum) 38 urgent

/-- The mark of that segment. -/
def oneByteMark (offload : Bool) : BsdOobMark := ⟨true, 1024, 80, 1, offload⟩

theorem bsdOobIpFilter_oneByte :
    (oneByteMark false).Names .packetOut (oneByteSegment 0x3676 0) ∧
      TcpVerifies (bsdOobIpFilter (oneByteMark false) .packetOut (oneByteSegment 0x3676 0)) 20 ∧
      be16 (bsdOobIpFilter (oneByteMark false) .packetOut (oneByteSegment 0x3676 0)) 38 = 1 ∧
      ¬TcpVerifies (bsdOobIpFilter (oneByteMark false) .packetOut (oneByteSegment 0x3671 5))
        20 := by
  have h := bsdOobIpFilter_tcpVerifies (oneByteMark false) .packetOut (oneByteSegment 0x3676 0)
  have h' := bsdOobIpFilter_tcpVerifies (oneByteMark false) .packetOut (oneByteSegment 0x3671 5)
  exact ⟨by decide +kernel, h.1 20 (by decide +kernel) rfl (.inl (by decide +kernel)),
    (h.2.1 (by decide +kernel) (by decide +kernel)).2.1,
    h'.2.2.2 20 (by decide +kernel) (by decide +kernel) rfl (by decide +kernel)⟩

/-- **Two segments that the filter spoils**: one whose urgent pointer is 5 while URG is clear, and
one that had its checksum although the mark leaves it to the driver. -/
theorem bsdOobIpFilter_spoils :
    (TcpVerifies (oneByteSegment 0x3671 5) 20 ∧
      ¬TcpVerifies (bsdOobIpFilter (oneByteMark false) .packetOut (oneByteSegment 0x3671 5)) 20) ∧
    (TcpVerifies (oneByteSegment 0x3676 0) 20 ∧
      ¬TcpVerifies (bsdOobIpFilter (oneByteMark true) .packetOut (oneByteSegment 0x3676 0))
        20) := by
  refine ⟨⟨by decide +kernel, ?_⟩, by decide +kernel, ?_⟩
  · rw [bsdOobIpFilter_eq, if_pos (by decide +kernel), show (oneByteMark false).offload = false
      from rfl, oobRewrite_false, bsdOobCsumUpdate, bsdOobCsumUpdate, csumFold_eq, csumFold_eq]
    decide +kernel
  · rw [bsdOobIpFilter_eq, if_pos (by decide +kernel)]
    decide +kernel

end AmiNetXDuo.BsdSocket
