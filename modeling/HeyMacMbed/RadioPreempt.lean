import HeyMacMbed.RadioIsr
import HeyMacMbed.RadioOps

/-!
# An edge in the middle of a call

The pins interrupt the driver between any two of its accesses, and the chip goes on by
itself meanwhile. `write_stngs` writes a mapping to the chip before it notes it as
written, so there is a moment at which a routine translates by the mapping that was.
There is no other.
-/

open Bits Octets Fields Threads SX127xRadio

/-- A call of the driver after `init_radio`, as its callers promise it. -/
abbrev LaterCall := { c : RadioCall // c ≠ .initRadio ∧ c.Accepted }

namespace PinnedRadio

variable {κ : Type}

def access (t : Target) (o : RadioOp) (x : PinnedRadio κ) : o.Res × PinnedRadio κ :=
  let y := o.exec t x.radio
  (y.1, { x with radio := y.2 })

/-- The chip's registers change on their own, but not the bits of a setting. -/
def chipActs (regs : RegFile RegAddr 8) (x : PinnedRadio κ) : Option (PinnedRadio κ) :=
  if ∀ fld, Single fld → (fieldOf fld).read regs = (fieldOf fld).read x.radio.chip.regs then
    some { x with radio := { x.radio with chip := { x.radio.chip with regs := regs } } }
  else none

end PinnedRadio

/-- The driver making calls, one access at a time. -/
def driver (κ : Type) (t : Target) :
    System RadioOp.Res (PinnedRadio κ) (RegFile RegAddr 8) Unit (List LaterCall) where
  exec := fun o _ x => some (x.access t o)
  env := PinnedRadio.chipActs
  body := fun calls =>
    match calls with
    | [] => pure []
    | c :: calls => do
      c.val.prog t
      pure calls

abbrev DriverConfig (κ : Type) := Config RadioOp.Res (PinnedRadio κ) (List LaterCall)

/-- After `init_radio`, with any calls to make. -/
def Initialised {κ : Type} (t : Target) (cb : κ) (c : DriverConfig κ) : Prop :=
  (∃ x : PinnedRadio κ, c.world = x.initRadio t cb) ∧ ∃ calls, c.prog = .ret calls

/-- The next thing the program does, but for reading what is asked for, is to note the
setting as written. -/
def RadioProg.Noting {α : Type} (r : SX127xRadio) (fld : Fld) : RadioProg α → Prop
  | .call (.putApplied g _) _ => g = fld
  | .call (.getStng g) k => RadioProg.Noting r fld (k (r.rdoStngs g))
  | _ => False

namespace SX127xRadio

/-- The driver with a setting noted as written. -/
def note (r : SX127xRadio) (fld : Fld) (v : Octet) : SX127xRadio :=
  { r with rdoStngsApplied := Function.update r.rdoStngsApplied fld v }

/-- The driver as if a register held what was read from it. -/
def withReg (r : SX127xRadio) (a : RegAddr) (reg : Octet) : SX127xRadio :=
  { r with chip := { r.chip with regs := Function.update r.chip.regs a reg } }

@[simp] theorem withReg_regs (r : SX127xRadio) (a : RegAddr) (reg : Octet) :
    (r.withReg a reg).chip.regs = Function.update r.chip.regs a reg := rfl

/-- The setting asked for is in the chip and only has to be noted. -/
structure Unnoted (r : SX127xRadio) (fld : Fld) (v : Octet) : Prop where
  asked : r.rdoStngs fld = v
  stale : r.rdoStngsApplied fld ≠ v
  noted : (r.note fld v).Coherent

theorem Coherent.of_shadow {r r' : SX127xRadio} (h : r.Coherent) (hs : r'.rdoStngs = r.rdoStngs)
    (ha : r'.rdoStngsApplied = r.rdoStngsApplied)
    (hr : ∀ fld, Single fld → (fieldOf fld).read r'.chip.regs = (fieldOf fld).read r.chip.regs) :
    r'.Coherent :=
  h.of_kept hs ha fun fld hf => congrArg BitVec.toNat (hr fld hf)

section Written
variable {r : SX127xRadio} {reg mask v : Octet}

/-- A read-modify-write with the environment in between is one of the registers as if the
one written were still what was read. -/
theorem write_rmw_regs (reg mask v : Octet) {f : BitField RegAddr} (hp : Plain f.reg) :
    (r.write f.reg [rmw reg mask v f.start]).chip.regs =
      f.write (r.withReg f.reg reg).chip.regs mask v := by
  rw [write_regs r hp, BitField.write, withReg_regs, Function.update_self, Function.update_idem]

/-- The write of an outstanding setting leaves it to be noted. -/
theorem write_unnoted {fld : Fld} (hread : (r.withReg (fieldOf fld).reg reg).Coherent)
    (hout : r.rdoStngs fld ≠ r.rdoStngsApplied fld)
    (hmask : (stngsInfoLut fld).regCnt ≠ 0 → IsMask mask (fieldOf fld).start (fieldOf fld).cnt) :
    (r.write (fieldOf fld).reg [rmw reg mask (r.rdoStngs fld) (fieldOf fld).start]).Unnoted fld
      (r.rdoStngs fld) := by
  have hplain : Plain (fieldOf fld).reg := regStart_plain fld
  have hregs := write_rmw_regs (r := r) reg mask (r.rdoStngs fld) hplain
  refine ⟨rfl, hout.symm, fun other ho => ?_, hread.fits⟩
  change ((fieldOf other).read (r.write _ _).chip.regs).toNat =
    (Function.update r.rdoStngsApplied fld _ other).toNat
  rw [hregs]
  by_cases hfld : other = fld
  · subst hfld
    rw [Function.update_self, BitField.read_write_same _ _
      (hmask (single_within other ho).1) (single_fits other ho)]
    exact toNat_extract_of_lt (hread.fits other ho)
  · have hm : (fieldOf fld).reg = (fieldOf other).reg →
        IsMask mask (fieldOf fld).start (fieldOf fld).cnt := by
      intro hreg
      refine hmask fun hc => ?_
      exact (half_reg fld other hc (single_within other ho)).1 hreg
    rw [Function.update_of_ne hfld, BitField.read_write_apart _ hm (single_fits other ho)
      (fieldOf_apart fld other (Ne.symm hfld) (single_within other ho))]
    exact hread.applied other ho

/-- The write of an op mode leaves nothing to be noted. -/
theorem write_opMode (hread : (r.withReg regRdoOpmode reg).Coherent) (m : OpMode) :
    (r.write regRdoOpmode [(reg &&& ~~~0x7) ||| (0x7 &&& m.code)]).Coherent := by
  have hrmw : (reg &&& ~~~0x7) ||| (0x7 &&& m.code) = rmw reg 0x7 m.code opModeField.start := by
    rw [rmw, show opModeField.start = 0 from rfl, BitVec.shiftLeft_zero]
  have hregs := write_rmw_regs (r := r) reg 0x7 m.code (f := opModeField) (by decide)
  refine Coherent.of_shadow (r := r.withReg regRdoOpmode reg) hread rfl rfl fun fld hf => ?_
  rw [hrmw]
  refine (congrArg (fieldOf fld).read hregs).trans ?_
  exact BitField.read_write_apart _ (fun _ => opModeMask_isMask) (single_fits fld hf)
    (opModeField_apart fld).2

theorem loraBit_eq (reg : Octet) (h : v.toNat < 2) :
    (if v ≠ 0 then reg ||| 0x80 else reg &&& ~~~0x80) = rmw reg 0x80 v 7 := by
  have hv : v = 0 ∨ v = 1 := by
    rcases Nat.lt_or_ge v.toNat 1 with h0 | h1
    · exact Or.inl (BitVec.eq_of_toNat_eq (by simp; omega))
    · exact Or.inr (BitVec.eq_of_toNat_eq (by simp; omega))
  rcases hv with rfl | rfl
  · exact (loraBit_rmw reg).2
  · exact (loraBit_rmw reg).1

end Written

/-- Bits of a register that was read stay those read as long as settings keep theirs. -/
theorem read_withReg {g : BitField RegAddr} {m m' : RegFile RegAddr 8} (a : RegAddr) (reg : Octet)
    (h : g.read m' = g.read m) :
    g.read (Function.update m' a reg) = g.read (Function.update m a reg) := by
  by_cases hg : g.reg = a
  · rw [BitField.read, BitField.read, hg, Function.update_self, Function.update_self]
  · rw [BitField.read_update_other _ _ _ hg, BitField.read_update_other _ _ _ hg, h]

end SX127xRadio

namespace PinnedRadio

variable {κ : Type}

/-- The shadow is the chip's, the mappings are proper and edges come to `cb`. -/
structure Steady (cb : κ) (x : PinnedRadio κ) : Prop where
  coherent : x.radio.Coherent
  mapped : x.radio.Mapped
  clbk : x.sigDioClbk = some cb

/-- The same but for a setting still to be noted. -/
structure Writing (cb : κ) (x : PinnedRadio κ) (fld : Fld) (v : Octet) : Prop where
  unnoted : x.radio.Unnoted fld v
  mapped : x.radio.Mapped
  clbk : x.sigDioClbk = some cb

/-- What neither the chip nor most accesses of the driver change. -/
structure Kept (x x' : PinnedRadio κ) : Prop where
  clbk : x'.sigDioClbk = x.sigDioClbk
  stngs : x'.radio.rdoStngs = x.radio.rdoStngs
  applied : x'.radio.rdoStngsApplied = x.radio.rdoStngsApplied
  bits : ∀ fld, Single fld →
    (fieldOf fld).read x'.radio.chip.regs = (fieldOf fld).read x.radio.chip.regs

/-- What is kept with these. -/
def Lasting (P : PinnedRadio κ → Prop) : Prop := ∀ x x', P x → Kept x x' → P x'

variable {cb : κ} {x x' : PinnedRadio κ}

theorem mapped_of_kept (hm : x.radio.Mapped) (h : Kept x x') : x'.radio.Mapped := by
  intro d
  rw [h.stngs, h.applied]
  exact hm d

theorem steady_lasting (cb : κ) : Lasting (Steady cb) := fun _ _ hx h =>
  ⟨hx.coherent.of_shadow h.stngs h.applied h.bits, mapped_of_kept hx.mapped h,
    h.clbk.trans hx.clbk⟩

theorem writing_lasting (cb : κ) (fld : Fld) (v : Octet) :
    Lasting fun x => Writing cb x fld v := by
  intro x x' hx h
  obtain ⟨hasked, hstale, hnoted⟩ := hx.unnoted
  refine ⟨⟨by rw [h.stngs, hasked], by rw [h.applied]; exact hstale, ?_⟩,
    mapped_of_kept hx.mapped h, h.clbk.trans hx.clbk⟩
  refine hnoted.of_shadow h.stngs ?_ h.bits
  exact congrArg (Function.update · fld v) h.applied

/-- The shadow, as it is. -/
def Shadow (s a : Fld → Octet) (x : PinnedRadio κ) : Prop :=
  x.radio.rdoStngs = s ∧ x.radio.rdoStngsApplied = a

theorem shadow_lasting (s a : Fld → Octet) : Lasting (Shadow (κ := κ) s a) := fun _ _ hx h =>
  ⟨h.stngs.trans hx.1, h.applied.trans hx.2⟩

/-- The settings' bits are those of the register read. -/
def HasRead (a : RegAddr) (reg : Octet) (x : PinnedRadio κ) : Prop :=
  (x.radio.withReg a reg).Coherent

theorem hasRead_lasting (a : RegAddr) (reg : Octet) : Lasting (HasRead (κ := κ) a reg) :=
  fun _ _ hx h => Coherent.of_shadow hx h.stngs h.applied fun fld hf =>
    read_withReg a reg (h.bits fld hf)

theorem Lasting.and {P Q : PinnedRadio κ → Prop} (hP : Lasting P) (hQ : Lasting Q) :
    Lasting fun x => P x ∧ Q x := fun x x' hx h => ⟨hP x x' hx.1 h, hQ x x' hx.2 h⟩

/-- The contract of the driver's accesses: a note is of what was just written, and all
other accesses but reading what is asked for find the shadow steady. -/
def contract (cb : κ) : Contract RadioOp (PinnedRadio κ) (RegFile RegAddr 8) where
  envOk := fun _ _ => True
  opOk := fun _ _ => True
  pre := fun o x =>
    match o with
    | .putApplied fld v => Writing cb x fld v
    | .getStng _ => True
    | _ => Steady cb x

variable {t : Target}

/-- The access keeps the shadow and the settings' bits. -/
def Quiet : RadioOp → Prop
  | .write addr data =>
    addr &&& 0x7F = addr ∧ ∀ fld, Single fld → Misses (fieldOf fld).reg addr data.length
  | .putStng _ _ | .putApplied _ _ | .writeMode _ _ | .pinReset => False
  | _ => True

theorem quiet_kept {o : RadioOp} (ho : Quiet o) (x : PinnedRadio κ) :
    Kept x (x.access t o).2 := by
  cases o with
  | putStng _ _ => cases ho
  | putApplied _ _ => cases ho
  | writeMode _ _ => cases ho
  | pinReset => cases ho
  | read addr =>
    refine ⟨rfl, rfl, rfl, fun fld _ => ?_⟩
    exact congrArg (fieldOf fld).read (readReg_regs x.radio addr)
  | write addr data =>
    refine ⟨rfl, rfl, rfl, fun fld hf => ?_⟩
    have hsame := write_regs_other x.radio ho.1 (ho.2 fld hf)
    exact congrArg (BitVec.extractLsb' (fieldOf fld).start (fieldOf fld).cnt) hsame
  | writeFifo data sz =>
    refine ⟨rfl, rfl, rfl, fun fld _ => ?_⟩
    exact congrArg (fieldOf fld).read (writeFifo_regs x.radio data sz)
  | _ => exact ⟨rfl, rfl, rfl, fun _ _ => rfl⟩

theorem rely_kept (h : Rely (driver κ t) (contract cb) x x') : Kept x x' := by
  obtain ⟨regs, _, henv⟩ := h
  obtain ⟨hbits, he⟩ := Option.ite_none_right_eq_some.mp henv
  cases he
  exact ⟨rfl, rfl, rfl, hbits⟩

theorem Lasting.stable {P : PinnedRadio κ → Prop} (hP : Lasting P) :
    Stable (driver κ t) (contract cb) P := fun x x' hx h => hP x x' hx (rely_kept h)

section Rules
variable {α β : Type} {P : PinnedRadio κ → Prop} {Q : α → PinnedRadio κ → Prop}

theorem wp_getStng {g : Fld} {k : Octet → RadioProg α} {s a : Fld → Octet} (hP : Lasting P)
    (hs : ∀ x, P x → Shadow s a x) (hx : P x)
    (h : ∀ x, P x → wp (driver κ t) (contract cb) (k (s g)) Q x) :
    wp (driver κ t) (contract cb) (RadioProg.op (.getStng g) >>= k) Q x := by
  refine wp_perform hP.stable hx (fun _ _ => trivial) fun w _ r w' hw _ hexec => ?_
  cases hexec
  have hr : w.radio.rdoStngs g = s g := congrFun (hs w hw).1 g
  change wp _ _ (k (w.radio.rdoStngs g)) Q w
  rw [hr]
  exact h w hw

theorem wp_getApplied {g : Fld} {k : Octet → RadioProg α} {s a : Fld → Octet} (hP : Lasting P)
    (hst : ∀ x, P x → Steady cb x) (hs : ∀ x, P x → Shadow s a x) (hx : P x)
    (h : ∀ x, P x → wp (driver κ t) (contract cb) (k (a g)) Q x) :
    wp (driver κ t) (contract cb) (RadioProg.op (.getApplied g) >>= k) Q x := by
  refine wp_perform hP.stable hx hst fun w _ r w' hw _ hexec => ?_
  cases hexec
  have hr : w.radio.rdoStngsApplied g = a g := congrFun (hs w hw).2 g
  change wp _ _ (k (w.radio.rdoStngsApplied g)) Q w
  rw [hr]
  exact h w hw

/-- What is read from a register holds the settings' bits. -/
theorem wp_read {addr : RegAddr} {k : Octet → RadioProg α} (haddr : addr &&& 0x7F = addr)
    (hP : Lasting P) (hst : ∀ x, P x → Steady cb x) (hx : P x)
    (h : ∀ reg x, P x → HasRead addr reg x → wp (driver κ t) (contract cb) (k reg) Q x) :
    wp (driver κ t) (contract cb) (RadioProg.op (.read addr) >>= k) Q x := by
  refine wp_perform hP.stable hx hst fun w _ r w' hw _ hexec => ?_
  cases hexec
  have hkept : Kept w (w.access t (.read addr)).2 :=
    quiet_kept (show Quiet (.read addr) from trivial) w
  have hread : HasRead addr (w.radio.chip.regs addr) w := by
    rw [HasRead, withReg, Function.update_eq_self]
    exact (hst w hw).coherent
  have hreg : (w.radio.readReg addr).1 = w.radio.chip.regs addr := readReg_fst w.radio haddr
  change wp _ _ (k (w.radio.readReg addr).1) Q (w.access t (.read addr)).2
  rw [hreg]
  exact h _ _ (hP _ _ hw hkept) (hasRead_lasting _ _ _ _ hread hkept)

end Rules

/-! The programs of the calls. -/

section Programs
variable {α : Type}

/-- The accesses that leave the shadow steady: the quiet ones and the store of a value
the setting can have. -/
def Harmless : RadioOp → Prop
  | .putStng fld v => Single fld → v.toNat ≤ (stngsInfoLut fld).valMax.toNat
  | o => Quiet o

theorem Harmless.quiet_or_putStng {o : RadioOp} (ho : Harmless o) :
    Quiet o ∨ ∃ fld v, o = .putStng fld v := by
  cases o with
  | putStng fld v => exact Or.inr ⟨fld, v, rfl⟩
  | _ => exact Or.inl ho

theorem steady_putStng {fld : Fld} {v : Octet} (hv : Harmless (.putStng fld v))
    (hx : Steady cb x) : Steady cb (x.access t (.putStng fld v)).2 := by
  refine ⟨⟨hx.coherent.applied, fun other ho => ?_⟩, fun d => ⟨?_, (hx.mapped d).2⟩, hx.clbk⟩
  · change (Function.update x.radio.rdoStngs fld v other).toNat < _
    by_cases hfld : other = fld
    · subst hfld
      rw [Function.update_self]
      exact Nat.lt_of_le_of_lt (hv ho) (valMax_fits other ho).2.1
    · rw [Function.update_of_ne hfld]
      exact hx.coherent.fits other ho
  · change (Function.update x.radio.rdoStngs fld v d.fld).toNat ≤ 2
    by_cases hfld : d.fld = fld
    · subst hfld
      rw [Function.update_self, ← d.valMax]
      exact hv d.single
    · rw [Function.update_of_ne hfld]
      exact (hx.mapped d).1

theorem wp_harmless {p : RadioProg α} (hp : p.Calls Harmless) (hx : Steady cb x) :
    wp (driver κ t) (contract cb) p (fun _ => Steady cb) x := by
  refine wp_calls (φ := Harmless) (steady_lasting cb).stable (fun o x hx ho => ?_)
    (fun o ho => ?_) hp hx
  · cases o with
    | putApplied _ _ => cases ho
    | getStng _ => trivial
    | _ => exact hx
  · intro w _ r w' hw _ hexec
    cases hexec
    rcases ho.quiet_or_putStng with hquiet | ⟨fld, v, rfl⟩
    · exact steady_lasting cb _ _ hw (quiet_kept hquiet w)
    · exact steady_putStng ho hw

/-- The end of both loops' bodies: the setting is noted as it is asked for. -/
theorem wp_note {fld : Fld} {s a : Fld → Octet}
    (hx : Writing cb x fld (s fld) ∧ Shadow s a x) :
    wp (driver κ t) (contract cb) (do
      let stng ← RadioProg.op (.getStng fld)
      RadioProg.op (.putApplied fld stng)) (fun _ => Steady cb) x := by
  have hlast := (writing_lasting cb fld (s fld)).and (shadow_lasting s a)
  refine wp_getStng hlast (fun _ h => h.2) hx fun x hx => ?_
  refine wp_last hlast.stable hx (fun _ h => h.1) fun w _ r w' hw _ hexec => ?_
  cases hexec
  refine wp_pure (steady_lasting cb).stable ?_ fun _ h => h
  obtain ⟨hw, _⟩ := hw
  refine ⟨hw.unnoted.noted, fun d => ?_, hw.clbk⟩
  refine ⟨(hw.mapped d).1, ?_⟩
  change (Function.update w.radio.rdoStngsApplied fld (s fld) d.fld).toNat ≤ 2
  by_cases hd : d.fld = fld
  · rw [hd, Function.update_self, ← hw.unnoted.asked, ← hd]
    exact (hw.mapped d).1
  · rw [Function.update_of_ne hd]
    exact (hw.mapped d).2

/-- A setting is read, written and noted. -/
theorem wp_rmw {fld : Fld} {addr : RegAddr} {s a : Fld → Octet} (mask : Octet)
    (val : Octet → Octet → Octet) (haddr : (fieldOf fld).reg = addr) (hout : s fld ≠ a fld)
    (hmask : (stngsInfoLut fld).regCnt ≠ 0 → IsMask mask (fieldOf fld).start (fieldOf fld).cnt)
    (hval : ∀ x : PinnedRadio κ, Steady cb x → Shadow s a x → ∀ reg,
      val reg (s fld) = rmw reg mask (s fld) (fieldOf fld).start)
    (hx : Steady cb x ∧ Shadow s a x) :
    wp (driver κ t) (contract cb) (do
      let reg ← RadioProg.op (.read addr)
      let stng ← RadioProg.op (.getStng fld)
      RadioProg.op (.write addr [val reg stng])
      let stng ← RadioProg.op (.getStng fld)
      RadioProg.op (.putApplied fld stng)) (fun _ => Steady cb) x := by
  subst haddr
  have hplain : Plain (fieldOf fld).reg := regStart_plain fld
  have hlast := (steady_lasting cb).and (shadow_lasting s a)
  refine wp_read hplain.1 hlast (fun _ h => h.1) hx fun reg x hx hread => ?_
  have hlast' := hlast.and (hasRead_lasting (fieldOf fld).reg reg)
  refine wp_getStng hlast' (fun _ h => h.1.2) ⟨hx, hread⟩ fun x hx => ?_
  refine wp_perform hlast'.stable hx (fun _ h => h.1.1) fun w _ r w' hw _ hexec => ?_
  cases hexec
  obtain ⟨⟨hst, hsh⟩, hread⟩ := hw
  have hstale : w.radio.rdoStngs fld ≠ w.radio.rdoStngsApplied fld := by
    rw [hsh.1, hsh.2]
    exact hout
  have hun := write_unnoted hread hstale hmask
  rw [hsh.1] at hun
  refine wp_note (a := a) ⟨⟨?_, hst.mapped, hst.clbk⟩, hsh⟩
  rw [hval w hst hsh]
  exact hun

/-- What is done only about an outstanding setting. -/
theorem wp_outstanding {fld : Fld} {p : RadioProg Unit} (hx : Steady cb x)
    (h : ∀ s a x, s fld ≠ a fld → Steady cb x ∧ Shadow s a x →
      wp (driver κ t) (contract cb) p (fun _ => Steady cb) x) :
    wp (driver κ t) (contract cb)
      (RadioProg.stngOutstanding fld >>= fun b => if b then p else RadioProg.skip)
      (fun _ => Steady cb) x := by
  have hlast := (steady_lasting cb).and
    (shadow_lasting x.radio.rdoStngs x.radio.rdoStngsApplied)
  refine wp_getStng hlast (fun _ h => h.2) ⟨hx, rfl, rfl⟩ fun y hy => ?_
  refine wp_getApplied hlast (fun _ h => h.1) (fun _ h => h.2) hy fun y hy => ?_
  by_cases hout : x.radio.rdoStngs fld = x.radio.rdoStngsApplied fld
  · have hb : (x.radio.rdoStngs fld != x.radio.rdoStngsApplied fld) = false := by
      rw [hout, bne_self_eq_false]
    rw [hb]
    exact wp_harmless (p := RadioProg.skip) trivial hy.1
  · have hb : (x.radio.rdoStngs fld != x.radio.rdoStngsApplied fld) = true :=
      bne_iff_ne.mpr hout
    rw [hb]
    exact h _ _ y hout hy

theorem wp_writeFld (fld : Fld) (hx : Steady cb x) :
    wp (driver κ t) (contract cb) (RadioProg.writeFld t fld) (fun _ => Steady cb) x := by
  refine wp_outstanding hx fun s a x hout hx => ?_
  exact wp_rmw (bitf t fld) (fun reg stng => rmw reg (bitf t fld) stng (fieldOf fld).start) rfl
    hout (fun hc => bitf_isMask t hc) (fun _ _ _ _ => rfl) hx

theorem wp_writeFlds (flds : List Fld) (hx : Steady cb x) :
    wp (driver κ t) (contract cb) (RadioProg.writeFlds t flds) (fun _ => Steady cb) x := by
  induction flds generalizing x with
  | nil => exact wp_harmless (p := RadioProg.skip) trivial hx
  | cons fld flds ih => exact wp_bind (wp_mono (fun _ _ h => ih h) (wp_writeFld fld hx))

theorem wp_writeSleepStngs (hx : Steady cb x) :
    wp (driver κ t) (contract cb) RadioProg.writeSleepStngs (fun _ => Steady cb) x := by
  refine wp_outstanding hx fun s a x hout hx => ?_
  refine wp_rmw 0x80 (fun reg stng => if stng ≠ 0 then reg ||| 0x80 else reg &&& ~~~0x80) rfl
    hout (fun _ => sleepMask_isMask) (fun x hst hsh reg => ?_) hx
  have hfits := hst.coherent.fits .rdoLoraMode (by decide)
  rw [hsh.1] at hfits
  exact loraBit_eq reg hfits

theorem wp_writeStngs (forRx : Bool) (hx : Steady cb x) :
    wp (driver κ t) (contract cb) (RadioProg.writeStngs t forRx) (fun _ => Steady cb) x := by
  have hthen : ∀ {β γ : Type} {p : RadioProg β} {g : β → RadioProg γ}, p.Calls Harmless →
      (∀ b x, Steady cb x → wp (driver κ t) (contract cb) (g b) (fun _ => Steady cb) x) →
      ∀ x, Steady cb x → wp (driver κ t) (contract cb) (p >>= g) (fun _ => Steady cb) x :=
    fun hp hg x hx => wp_bind (wp_mono (fun b x h => hg b x h) (wp_harmless hp hx))
  refine hthen (p := RadioProg.op .getFreq) ⟨trivial, fun _ => trivial⟩ (fun freq => ?_) x hx
  refine hthen (calls_errata (fun _ => trivial) forRx freq) fun info => ?_
  refine hthen (calls_errataOutstanding (fun _ => trivial) fun _ => trivial) fun changed => ?_
  refine hthen ?_ fun _ => hthen (calls_writeFreq trivial ?_ (fun _ => trivial) _) fun _ x hx =>
    wp_writeFlds Fld.all hx
  · split
    · refine calls_writeErrata (fun _ => ⟨by decide, ?_⟩) trivial (fun _ => ⟨by decide, ?_⟩) _ _
      · exact show ∀ fld, Single fld → Misses (fieldOf fld).reg regLoraIfFreq2 1 by decide
      · exact show ∀ fld, Single fld → Misses (fieldOf fld).reg regLoraDtctOptmz 1 by decide
    · trivial
  · intro data hlen
    refine ⟨by decide, ?_⟩
    rw [hlen]
    decide

theorem wp_writeOpMode (m : OpMode) (hx : Steady cb x) :
    wp (driver κ t) (contract cb) (RadioProg.writeOpMode m) (fun _ => Steady cb) x := by
  refine wp_read (by decide) (steady_lasting cb) (fun _ h => h) hx fun reg x hx hread => ?_
  have hlast := (steady_lasting cb).and (hasRead_lasting regRdoOpmode reg)
  refine wp_last hlast.stable ⟨hx, hread⟩ (fun _ h => h.1) fun w _ r w' hw _ hexec => ?_
  cases hexec
  exact wp_pure (steady_lasting cb).stable
    ⟨write_opMode hw.2 m, hw.1.mapped, hw.1.clbk⟩ fun _ h => h

/-- What `set` stores for a field of one register is the value asked for. -/
theorem stored_toNat {fld : Fld} {val : BitVec 32} (hf : Single fld) (hb : InBounds fld val) :
    ((val &&& t.bitFld 0 (stngsInfoLut fld).bitCnt).setWidth 8 : Octet).toNat = val.toNat := by
  obtain ⟨v, hv, hset⟩ := set_single t (r := zeroed) hf hb
  have hstng := congrFun (congrArg rdoStngs hset) fld
  rw [← hv, ← show (zeroed.putStng fld v).rdoStngs fld = v from Function.update_self _ _ _,
    ← hstng]
  unfold SX127xRadio.set
  rw [if_pos hb]
  cases fld <;> first | rfl | exact absurd hf (by decide)

theorem wp_set {fld : Fld} {val : BitVec 32} (hb : InBounds fld val)
    (hc : (stngsInfoLut fld).regCnt ≠ 0) (hx : Steady cb x) :
    wp (driver κ t) (contract cb) (RadioProg.set t fld val) (fun _ => Steady cb) x := by
  refine wp_perform (steady_lasting cb).stable hx (fun _ h => h) fun w _ r w' hw _ hexec => ?_
  cases hexec
  refine wp_harmless ?_ hw
  have hstore : Harmless (.putStng fld
      ((val &&& t.bitFld 0 (stngsInfoLut fld).bitCnt).setWidth 8)) := by
    intro hf
    rw [stored_toNat hf hb]
    exact BitVec.le_def.mp hb.2
  have hhalf : ∀ g : Fld, ¬ Single g → ∀ v, Harmless (.putStng g v) := fun g hg v hf =>
    absurd hf hg
  change (if InBounds fld val then _ else _ : RadioProg Unit).Calls Harmless
  rw [if_pos hb]
  cases fld with
  | rdoFreqHz => exact ⟨trivial, fun _ => trivial⟩
  | loraRxTmout => exact ⟨hhalf _ (by decide) _, fun _ => ⟨hhalf _ (by decide) _, fun _ => trivial⟩⟩
  | loraPreambleLen =>
    exact ⟨hhalf _ (by decide) _, fun _ => ⟨hhalf _ (by decide) _, fun _ => trivial⟩⟩
  | _ => exact ⟨hstore, fun _ => trivial⟩

/-- Every call leaves the shadow steady and meets the contract on the way. -/
theorem wp_prog (c : LaterCall) (hx : Steady cb x) :
    wp (driver κ t) (contract cb) (c.val.prog t) (fun _ => Steady cb) x := by
  obtain ⟨c, hinit, hc⟩ := c
  have hone : ∀ {addr : RegAddr} {n : Nat}, (addr &&& 0x7F = addr ∧
      ∀ fld, Single fld → Misses (fieldOf fld).reg addr n) → ∀ data : List Octet,
      data.length = n → Harmless (.write addr data) :=
    fun h data hlen => ⟨h.1, hlen ▸ h.2⟩
  cases c with
  | initRadio => exact absurd rfl hinit
  | readOpMode => exact wp_harmless ⟨trivial, fun _ => trivial⟩ hx
  | set fld val => exact wp_set hc.1 hc.2 hx
  | updtRng =>
    exact wp_harmless ⟨trivial, fun _ => ⟨trivial, fun _ => ⟨trivial, fun _ => trivial⟩⟩⟩ hx
  | writeFifo data sz => exact wp_harmless (p := RadioProg.op _) ⟨trivial, fun _ => trivial⟩ hx
  | writeFifoPtr offset =>
    exact wp_harmless ⟨hone (n := 3) (by decide) _ rfl, fun _ => trivial⟩ hx
  | writeLoraIrqMask d e =>
    exact wp_harmless ⟨trivial, fun _ => ⟨hone (n := 1) (by decide) _ rfl, fun _ => trivial⟩⟩ hx
  | writeLoraIrqFlags c =>
    exact wp_harmless ⟨hone (n := 1) (by decide) _ rfl, fun _ => trivial⟩ hx
  | writeOpMode m => exact wp_writeOpMode m hx
  | writeStngs forRx => exact wp_writeStngs forRx hx
  | writeSleepStngs => exact wp_writeSleepStngs hx

/-! Where an edge can come. -/

theorem reach_wp_driver {c : DriverConfig κ}
    (h : (driver κ t).Reach (Initialised t cb) (fun _ _ => True) c) :
    wp (driver κ t) (contract cb) c.prog (fun _ => Steady cb) c.world := by
  have hguard : (driver κ t).Reach (Initialised t cb) (contract cb).guard c :=
    reach_guard (fun _ _ => trivial) (fun _ _ _ _ => trivial) h
  refine reach_wp (J := fun _ => Steady cb) (fun c hc => ?_) (fun calls x hx => ?_) hguard
  · obtain ⟨⟨x, hx⟩, calls, hcalls⟩ := hc
    obtain ⟨hcoh, hready⟩ := initRadio_mirrors t x cb
    rw [hx, hcalls]
    exact wp_pure (steady_lasting cb).stable ⟨hcoh, hready.1, rfl⟩ fun _ h => h
  · cases calls with
    | nil => exact wp_pure (steady_lasting cb).stable hx fun _ h => h
    | cons c calls =>
      refine wp_bind (wp_mono (fun _ x hx => ?_) (wp_prog c hx))
      exact wp_pure (steady_lasting cb).stable hx fun _ h => h

/-- The contract at the next access that is not the reading of what is asked for. -/
theorem steady_or_writing {p : RadioProg α} {Q : α → PinnedRadio κ → Prop}
    (hQ : ∀ a x, Q a x → Steady cb x) (h : wp (driver κ t) (contract cb) p Q x) :
    ((∀ fld, ¬ RadioProg.Noting x.radio fld p) ∧ Steady cb x) ∨
      ∃ fld v, (∀ g, RadioProg.Noting x.radio g p ↔ g = fld) ∧ Writing cb x fld v := by
  induction p with
  | ret a => exact Or.inl ⟨fun _ h => h, hQ _ _ (wp_post h)⟩
  | call o k ih =>
    cases o with
    | getStng g => exact ih _ ((h x .refl).2 () _ _ trivial rfl)
    | putApplied fld v => exact Or.inr ⟨fld, v, fun _ => eq_comm, wp_pre h⟩
    | _ => exact Or.inl ⟨fun _ h => h, wp_pre h⟩

end Programs

theorem translates_of_index {d : Dio} (hm : x.radio.Mapped) (hcb : x.sigDioClbk = some cb)
    (hindex : (x.radio.rdoStngsApplied d.fld).toNat = d.mapping x.radio) : x.Translates d := by
  have hle : d.mapping x.radio ≤ 2 := hindex ▸ (hm d).2
  obtain ⟨sig, hsig, hrun⟩ := isr_calls hm hcb d
  rw [hindex] at hsig
  exact ⟨hindex, ⟨by omega, d.sigLut_length⟩, cb, sig, hcb, hsig, hrun⟩

theorem Steady.translates (h : Steady cb x) (d : Dio) : x.Translates d := by
  refine translates_of_index h.mapped h.clbk ?_
  rw [← d.chipVal_fld]
  exact (h.coherent.applied d.fld d.single).symm

theorem Writing.not_translates {d : Dio} {v : Octet} (h : Writing cb x d.fld v) :
    ¬ x.Translates d := by
  intro htr
  have hchip : x.radio.chipVal d.fld = v.toNat := by
    refine (h.unnoted.noted.applied d.fld d.single).trans ?_
    exact congrArg BitVec.toNat (Function.update_self _ _ _)
  rw [d.chipVal_fld, ← htr.index] at hchip
  exact h.unnoted.stale (BitVec.eq_of_toNat_eq hchip)

/-- A pin whose mapping is not about to be noted is none of its business. -/
theorem Writing.translates {d : Dio} {fld : Fld} {v : Octet} (h : Writing cb x fld v)
    (hd : d.fld ≠ fld) : x.Translates d := by
  have hindex : (x.radio.rdoStngsApplied d.fld).toNat = d.mapping x.radio := by
    have happ := h.unnoted.noted.applied d.fld d.single
    rw [← d.chipVal_fld]
    refine Eq.trans ?_ happ.symm
    exact congrArg BitVec.toNat (Function.update_of_ne hd _ _).symm
  exact translates_of_index h.mapped h.clbk hindex

/-- A driver that is to map DIO0 to TxDone. -/
def toMapDio0 : DriverConfig Unit :=
  ⟨(new .zeroed fun _ => true).initRadio .plain (),
    .ret [⟨.set .rdoDio0 1, (by intro e; cases e), by decide⟩,
      ⟨.writeStngs false, (by intro e; cases e), trivial⟩]⟩

def notesDio0 (c : DriverConfig Unit) : Bool :=
  match c.prog with
  | .call (.putApplied .rdoDio0 _) _ => true
  | _ => false

end PinnedRadio
