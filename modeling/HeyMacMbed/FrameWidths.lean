import HeyMacMbed.FrameParse
import HeyMacMbed.FrameRoundTrip

/-!
# Frames the setters do not refuse

The sender checks neither that its two addresses have one width nor that the
frame's size fits the 8 bits the receiving constructor takes it in. Both are
decided here for every build: what a frame with two widths spells, and which
sizes arrive.
-/

open Bits Octets

@[simp] theorem Addr.read_isLong (m : Mem) (pos : Nat) (l : Bool) :
    (Addr.read m pos l).isLong = l := by
  cases l <;> rfl

namespace HeyMacFrame

/-- One L flag reads both addresses. -/
theorem readHeader_oneWidth (m : Mem) : (readHeader m).OneWidth := by
  intro d hd s hs
  simp only [readHeader, Option.mem_def] at hd hs
  split at hd
  · split at hs
    · cases hd
      cases hs
      rw [Addr.read_isLong, Addr.read_isLong]
    · cases hs
  · cases hd

/-- The fields a frame built up to its payload spells are those its setters were given
just if its addresses have one width. -/
theorem Loaded.message_iff {f : HeyMacFrame} {pidfld : HmPidfld} {h : Header} {payld : Mem}
    {sz : Octet} (l : Loaded f pidfld h payld sz) :
    readMessage f.frm f.payldSz.toNat = ⟨h, get payld 0 sz.toNat, none⟩ ↔ h.OneWidth := by
  constructor
  · intro hread
    have hheader : readHeader f.frm = h := congrArg Message.header hread
    rw [← hheader]
    exact readHeader_oneWidth f.frm
  · exact l.message

@[simp] theorem ofBuf_getFrmSz (buf : Mem) (sz : Octet) :
    (ofBuf buf sz).getFrmSz = sz.setWidth 16 := by
  by_cases hz : sz = 0
  · subst hz
    simp [ofBuf, HeyMacFrame.getFrmSz, fctl, frm, setFrm, sFrameStart, frmIdxFctl]
  · rw [HeyMacFrame.getFrmSz, ofBuf_rxdSz, if_pos hz]

/-- The receiver gets the sender's size, and with it the protocol and the flags. -/
def Arrives (f : HeyMacFrame) : Prop :=
  ∀ r, IsReceived r f →
    r.getFrmSz = f.getFrmSz ∧ r.frm frmIdxPid = f.frm frmIdxPid ∧ r.fctl = f.fctl

/-- A size arrives if it fits 8 bits. -/
theorem Sized.arrives_iff {f : HeyMacFrame} (s : Sized f) :
    Arrives f ↔ f.getFrmSz.toNat ≤ 255 := by
  have h2 := payldPos_two f.fctl
  have hsize := s.getFrmSz
  constructor
  · intro harr
    obtain ⟨hsz, _⟩ := harr (ofBuf f.buf (f.getFrmSz.setWidth 8)) ⟨f.buf, rfl, fun _ _ => rfl⟩
    have hcut := congrArg BitVec.toNat hsz
    rw [ofBuf_getFrmSz, BitVec.toNat_setWidth, BitVec.toNat_setWidth] at hcut
    omega
  · rintro hle r ⟨rxBuf, rfl, hsame⟩
    have hn : (f.getFrmSz.setWidth 8).toNat = f.getFrmSz.toNat := by
      rw [BitVec.toNat_setWidth]
      exact Nat.mod_eq_of_lt (by omega)
    have hpos := ofBuf_pos rxBuf (show 1 ≤ (f.getFrmSz.setWidth 8).toNat by omega)
    refine ⟨?_, ?_, ?_⟩
    · apply BitVec.eq_of_toNat_eq
      rw [ofBuf_getFrmSz, BitVec.toNat_setWidth, hn]
      omega
    · rw [hpos]
      exact hsame frmIdxPid (by simp only [frmIdxPid]; omega)
    · rw [hpos]
      exact hsame frmIdxFctl (by simp only [frmIdxFctl]; omega)

/-- The octets Hops and TxAddr take. -/
def mhopSz (mhop : Option (Octet × Addr)) : Nat := mhop.elim 0 fun m => 1 + m.2.octets.length

theorem build_sized {buf : Mem} {h : Header} {payld : Mem} {sz : Octet}
    {mhop : Option (Octet × Addr)} {f : HeyMacFrame} (hb : build buf h payld sz mhop = some f) :
    Sized f ∧ f.getFrmSz.toNat = h.len + sz.toNat + mhopSz mhop := by
  obtain ⟨g, loaded, ⟨rfl, rfl⟩ | ⟨hops, a, rfl, m⟩⟩ := build_cases hb
  · exact ⟨loaded.sized, loaded.getFrmSz⟩
  · refine ⟨loaded.sized.setMhop m, ?_⟩
    rw [loaded.sized.setMhop_getFrmSz m, loaded.getFrmSz]
    rfl

/-- The size of a frame that was built reaches its receiver just if header, payload and
multihop fields have at most 255 octets, one fewer than `set_payld` admits and two fewer
than `set_mhop` does. -/
theorem build_arrives_iff (buf : Mem) (h : Header) (payld : Mem) (sz : Octet)
    (mhop : Option (Octet × Addr)) (f : HeyMacFrame) (hb : build buf h payld sz mhop = some f) :
    Arrives f ↔ h.len + sz.toNat + mhopSz mhop ≤ 255 := by
  obtain ⟨sized, hsize⟩ := build_sized hb
  rw [← hsize]
  exact sized.arrives_iff

/-- A short frame with Hops and TxAddr. -/
theorem build_arrives_three :
    let f := (build (fun _ => 0) ⟨none, none, none⟩ (fun _ => 7) 3 (some (5, .short 1))).get
      (by decide)
    Arrives f ↔ 2 + 3 + 3 ≤ 255 := by
  intro f
  exact build_arrives_iff (fun _ => 0) ⟨none, none, none⟩ (fun _ => 7) 3 (some (5, .short 1)) f
    (Option.some_get _).symm

/-- 254 octets of payload behind an empty header: the size 256 arrives as 0, and the
receiving constructor takes the frame for a new one. -/
theorem build_wraps_size :
    ∃ f, build (fun _ => 0) ⟨none, none, none⟩ (fun _ => 7) 254 none = some f ∧
      f.getFrmSz = 256 ∧ (ofBuf f.buf (f.getFrmSz.setWidth 8)).getFrmSz = 0 ∧
      (ofBuf f.buf (f.getFrmSz.setWidth 8)).frm frmIdxPid = HmPidfld.invalid.code ∧
      ¬ Arrives f := by
  obtain ⟨f, hb⟩ : ∃ f, build (fun _ => 0) ⟨none, none, none⟩ (fun _ => 7) 254 none = some f :=
    ⟨_, rfl⟩
  obtain ⟨sized, hsize⟩ := build_sized hb
  have hsz : f.getFrmSz = 256 := BitVec.eq_of_toNat_eq hsize
  refine ⟨f, hb, hsz, ?_, ?_, ?_⟩
  · rw [ofBuf_getFrmSz, hsz]
    rfl
  · rw [hsz]
    rfl
  · intro harr
    have hle := sized.arrives_iff.mp harr
    rw [hsz] at hle
    exact absurd hle (by decide)

theorem code_csmaV0 {pidfld : HmPidfld} :
    pidfld.code = HmPidfld.csmaV0.code ↔ pidfld = .csmaV0 := by
  cases pidfld <;> decide

/-- Which frames built up to their payload every receiver refuses. -/
theorem Loaded.refused_iff {f : HeyMacFrame} {pidfld : HmPidfld} {h : Header} {payld : Mem}
    {sz : Octet} (l : Loaded f pidfld h payld sz) :
    (∀ r, IsReceived r f → r.parse.1 = false) ↔
      pidfld ≠ .csmaV0 ∨ sz.toNat = 0 ∨ 255 < h.len + sz.toNat := by
  have h2 : 2 ≤ h.len := by rw [← l.flags.payldPos]; exact payldPos_two f.fctl
  have hsize := l.getFrmSz
  have hroom := l.sized.room
  rw [l.flags.payldPos, l.payldSz] at hroom
  simp only [hmFrameSz] at hroom
  have hmhop : mhopLen f.fctl = 0 := by rw [mhopLen, l.flags.multihop]; rfl
  -- within 255 octets the receiver sees the sender's protocol, flags and size
  have haccept : h.len + sz.toNat ≤ 255 → ∀ rxBuf : Mem,
      (∀ i, i < f.getFrmSz.toNat → rxBuf (sFrameStart + i) = f.frm i) →
      ((ofBuf rxBuf (f.getFrmSz.setWidth 8)).parse.1 = true ↔
        pidfld = .csmaV0 ∧ 0 < sz.toNat) := by
    intro hle rxBuf hsame
    have hn : (f.getFrmSz.setWidth 8).toNat = h.len + sz.toNat := by
      rw [BitVec.toNat_setWidth, hsize]
      exact Nat.mod_eq_of_lt (by omega)
    have hc : rxBuf (sFrameStart + frmIdxFctl) = f.fctl :=
      hsame frmIdxFctl (by simp only [frmIdxFctl]; omega)
    have hpid : rxBuf (sFrameStart + frmIdxPid) = pidfld.code :=
      (hsame frmIdxPid (by simp only [frmIdxPid]; omega)).trans l.pid
    rw [parse_ofBuf rxBuf _ (by omega), hc, hpid, hn, l.flags.payldPos, hmhop, code_csmaV0]
    constructor
    · rintro ⟨hp, hlt⟩
      exact ⟨hp, by omega⟩
    · rintro ⟨hp, hlt⟩
      exact ⟨hp, by omega⟩
  constructor
  · intro hrefused
    by_contra hno
    push Not at hno
    obtain ⟨hp, hsz, hle⟩ := hno
    have hacc := (haccept hle f.buf fun _ _ => rfl).mpr ⟨hp, by omega⟩
    rw [hrefused _ ⟨f.buf, rfl, fun _ _ => rfl⟩] at hacc
    cases hacc
  · rintro hwhy r ⟨rxBuf, rfl, hsame⟩
    apply Bool.eq_false_iff.mpr
    intro hacc
    by_cases hle : h.len + sz.toNat ≤ 255
    · have hok := (haccept hle rxBuf hsame).mp hacc
      rcases hwhy with hp | hsz | hbig
      · exact hp hok.1
      · omega
      · omega
    · have hpos := pos_of_accepted _ _ hacc
      rw [BitVec.toNat_setWidth, hsize] at hpos
      omega

/-- A frame spells what its setters were given or is refused, and no receiver that
accepts it reads anything else. -/
def Uncorrupted (f : HeyMacFrame) (msg : Message) : Prop :=
  (readMessage f.frm f.payldSz.toNat = msg ∨ ∀ r, IsReceived r f → r.parse.1 = false) ∧
    ∀ r, IsReceived r f → r.parse.1 = true →
      readMessage r.parse.2.frm r.parse.2.payldSz.toNat = msg

/-- The address setters leave each other's field alone just if the two addresses have one
width; otherwise the frame is corrupt unless it is one that no receiver accepts anyway. -/
theorem uncorrupted_iff (buf : Mem) (pidfld : HmPidfld) (h : Header) (payld : Mem) (sz : Octet)
    (f : HeyMacFrame) (hb : (startHeader buf pidfld h).setPayld payld sz = (true, f)) :
    Uncorrupted f ⟨h, get payld 0 sz.toNat, none⟩ ↔
      h.OneWidth ∨ pidfld ≠ .csmaV0 ∨ sz.toNat = 0 ∨ 255 < h.len + sz.toNat := by
  have l := (startHeader_opened buf pidfld h).setPayld hb
  rw [← l.refused_iff, ← l.message_iff]
  constructor
  · intro hok
    exact hok.1
  · intro hok
    refine ⟨hok, ?_⟩
    intro r hr hacc
    by_cases hrefused : ∀ r, IsReceived r f → r.parse.1 = false
    · rw [hrefused r hr] at hacc
      cases hacc
    · have hmsg := hok.resolve_right hrefused
      rw [l.refused_iff] at hrefused
      push Not at hrefused
      obtain ⟨rfl, hsz, hle⟩ := hrefused
      have hcomplete := l.complete (l.message_iff.mp hmsg)
      have hall := hcomplete.received (by rw [l.payldSz]; omega) (by rw [l.getFrmSz]; exact hle) hr
      exact hall.2.2.2.2

/-- A short destination and a short source. -/
theorem uncorrupted_short :
    let h : Header := ⟨some 1, some (.short 2), some (.short 3)⟩
    let f := ((startHeader (fun _ => 0) .csmaV0 h).setPayld (fun _ => 7) 3).2
    Uncorrupted f ⟨h, [7, 7, 7], none⟩ ↔
      h.OneWidth ∨ HmPidfld.csmaV0 ≠ .csmaV0 ∨ 3 = 0 ∨ 255 < h.len + 3 := by
  intro h f
  exact uncorrupted_iff (fun _ => 0) .csmaV0 h (fun _ => 7) 3 f (Prod.ext (by decide) rfl)

/-- A long destination, then a short source: the L flag is cleared again and a receiver
that accepts the frame reads the destination's first two octets for all of it. -/
theorem short_src_cuts_dst :
    let h : Header := ⟨none, some (.long 0xFD11121314151617), some (.short 3)⟩
    let f := ((startHeader (fun _ => 0) .csmaV0 h).setPayld (fun _ => 7) 3).2
    let r := (ofBuf f.buf (f.getFrmSz.setWidth 8)).parse
    r.1 = true ∧
      readMessage r.2.frm r.2.payldSz.toNat =
        ⟨⟨none, some (.short 0xFD11), some (.short 0x1213)⟩, [7, 7, 7], none⟩ ∧
      ¬ Uncorrupted f ⟨h, [7, 7, 7], none⟩ := by
  intro h f r
  have hr : r.1 = true := by decide +kernel
  have hread : readMessage r.2.frm r.2.payldSz.toNat =
      ⟨⟨none, some (.short 0xFD11), some (.short 0x1213)⟩, [7, 7, 7], none⟩ := by
    decide +kernel
  refine ⟨hr, hread, ?_⟩
  intro hok
  have hsame := hok.2 _ ⟨f.buf, rfl, fun _ _ => rfl⟩ hr
  rw [hread] at hsame
  simp [h] at hsame

end HeyMacFrame
