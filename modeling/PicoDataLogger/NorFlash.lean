/-
NOR flash as a device: bytes that programming can only clear and erasing can
only set.

`step` is the part that behaves. `Faults` is what may go wrong on top of it,
split the way the hardware splits it: a primitive that reports an error
(`fail`) and a primitive during which the supply goes (`cut`). The four fault
models at the end are the ones the development runs programs under, and each
is a different set of allowed damage, not a different device.
-/
import PicoDataLogger.Interaction
import Mathlib.Data.UInt

set_option autoImplicit false

namespace NorFlash

open Interaction

/-! ## The device -/

/-- The flash array, and how many erases it has served. -/
structure Flash where
  bytes : ℕ → UInt8
  erases : ℕ

/-- What can be asked of it. Offsets are the driver's `u32`. -/
inductive Prim : Type where
  | read (offset : UInt32) (len : ℕ)
  | write (offset : UInt32) (data : List UInt8)
  | erase (first last : UInt32)

/-- The value a primitive returns when it succeeds. -/
def Prim.Reply : Prim → Type
  | .read _ len => Vector UInt8 len
  | .write _ _ => Unit
  | .erase _ _ => Unit

/-- The answer of a primitive: its value, or the driver's error. -/
abbrev Prim.Answer (ε : Type) (p : Prim) : Type := Except ε p.Reply

/-- The addresses a primitive may touch, as a half-open interval. -/
def Prim.lo : Prim → ℕ
  | .read offset _ => offset.toNat
  | .write offset _ => offset.toNat
  | .erase first _ => first.toNat

@[inherit_doc Prim.lo] def Prim.hi : Prim → ℕ
  | .read offset len => offset.toNat + len
  | .write offset data => offset.toNat + data.length
  | .erase _ last => last.toNat

namespace Flash

/-- `len` bytes from `offset`. -/
def slice (m : Flash) (offset len : ℕ) : Vector UInt8 len :=
  Vector.ofFn fun i => m.bytes (offset + i)

/-- Programming clears bits and sets none. -/
def program (m : Flash) (offset : ℕ) (data : List UInt8) : Flash :=
  { m with bytes := fun a =>
      if offset ≤ a ∧ a < offset + data.length then m.bytes a &&& data.getD (a - offset) 0xff
      else m.bytes a }

/-- A program that was interrupted: of the bits it meant to clear, those in `mask` are left. -/
def torn (m : Flash) (offset : ℕ) (data : List UInt8) (mask : UInt8) : Flash :=
  { m with bytes := fun a =>
      if offset ≤ a ∧ a < offset + data.length then m.bytes a &&& (data.getD (a - offset) 0xff ||| mask)
      else m.bytes a }

/-- Erasing sets every bit of a range. -/
def eraseRange (m : Flash) (first last : ℕ) : Flash :=
  { bytes := fun a => if first ≤ a ∧ a < last then 0xff else m.bytes a
    erases := m.erases + 1 }

/-- An erase that was interrupted: of the bits it meant to set, `bits` are set. -/
def halfErased (m : Flash) (first last : ℕ) (bits : ℕ → UInt8) : Flash :=
  { m with bytes := fun a => if first ≤ a ∧ a < last then m.bytes a ||| bits a else m.bytes a }

@[simp] theorem slice_getElem (m : Flash) (offset len i : ℕ) (h : i < len) :
    (m.slice offset len)[i] = m.bytes (offset + i) := by
  simp [slice]

theorem slice_congr {m m' : Flash} {offset len : ℕ}
    (h : ∀ a, offset ≤ a → a < offset + len → m'.bytes a = m.bytes a) :
    m'.slice offset len = m.slice offset len := by
  apply Vector.ext
  intro i hi
  simpa using h (offset + i) (by omega) (by omega)

theorem program_bytes (m : Flash) (offset : ℕ) (data : List UInt8) (a : ℕ) :
    (m.program offset data).bytes a
      = if offset ≤ a ∧ a < offset + data.length
        then m.bytes a &&& data.getD (a - offset) 0xff else m.bytes a := rfl

theorem eraseRange_bytes (m : Flash) (first last a : ℕ) :
    (m.eraseRange first last).bytes a = if first ≤ a ∧ a < last then 0xff else m.bytes a := rfl

theorem halfErased_bytes (m : Flash) (first last : ℕ) (bits : ℕ → UInt8) (a : ℕ) :
    (m.halfErased first last bits).bytes a
      = if first ≤ a ∧ a < last then m.bytes a ||| bits a else m.bytes a := rfl

@[simp] theorem eraseRange_erases (m : Flash) (first last : ℕ) :
    (m.eraseRange first last).erases = m.erases + 1 := rfl

end Flash

/-- The device that behaves. -/
def step {ε : Type} : (p : Prim) → Flash → p.Answer ε × Flash
  | .read offset len, m => (.ok (m.slice offset.toNat len), m)
  | .write offset data, m => (.ok (), m.program offset.toNat data)
  | .erase first last, m => (.ok (), m.eraseRange first.toNat last.toNat)

/-! ## What may go wrong -/

/-- What a primitive may leave behind when it reports an error, and when the
supply goes during it. Reading never changes the array. -/
structure Faults where
  fail : Prim → Flash → Flash → Prop
  cut : Prim → Flash → Flash → Prop
  fail_read : ∀ {offset len m m'}, fail (.read offset len) m m' → m' = m
  cut_read : ∀ {offset len m m'}, cut (.read offset len) m m' → m' = m

namespace Faults

/-- The device with these faults: every primitive answers as `step`, or fails. -/
def env (F : Faults) (ε : Type) : Env Prim (Prim.Answer ε) Flash where
  respond p m r m' := (r, m') = step p m ∨ (∃ e, r = .error e) ∧ F.fail p m m'
  cut := F.cut

/-- `F` does no more damage than `F'`. -/
structure Le (F F' : Faults) : Prop where
  fail : ∀ {p m m'}, F.fail p m m' → F'.fail p m m'
  cut : ∀ {p m m'}, F.cut p m m' → F'.cut p m m'

theorem Le.env {F F' : Faults} (h : F.Le F') (ε : Type) : (F.env ε).Le (F'.env ε) where
  respond
    | .inl hs => .inl hs
    | .inr ⟨he, hf⟩ => .inr ⟨he, h.fail hf⟩
  cut := h.cut

theorem ofStep_le_env (F : Faults) (ε : Type) : (Env.ofStep step).Le (F.env ε) where
  respond := .inl
  cut := False.elim

/-- A program that was interrupted: some of the bits it meant to clear are cleared. -/
def Torn (offset : ℕ) (data : List UInt8) (m m' : Flash) : Prop :=
  m'.erases = m.erases ∧ ∀ a,
    if offset ≤ a ∧ a < offset + data.length
    then ∃ mask : UInt8, m'.bytes a = m.bytes a &&& (data.getD (a - offset) 0xff ||| mask)
    else m'.bytes a = m.bytes a

/-- No faults. -/
def none : Faults where
  fail _ _ _ := False
  cut _ _ _ := False
  fail_read := False.elim
  cut_read := False.elim

/-- What a power cut leaves: a program torn anywhere, an erase done or not begun. -/
def cutImage : Prim → Flash → Flash → Prop
  | .read _ _, m, m' => m' = m
  | .write offset data, m, m' => Torn offset.toNat data m m'
  | .erase first last, m, m' => m' = m ∨ m' = m.eraseRange first.toNat last.toNat

/-- What a reported error leaves: nothing changed, but for a program of more
than one byte, which may be torn. -/
def failImage : Prim → Flash → Flash → Prop
  | .read _ _, m, m' => m' = m
  | .write _ [_], m, m' => m' = m
  | .write offset data, m, m' => Torn offset.toNat data m m'
  | .erase _ _, m, m' => m' = m

/-- The supply may go at any time; no primitive reports an error. -/
def powerLoss : Faults where
  fail _ _ _ := False
  cut := cutImage
  fail_read := False.elim
  cut_read h := h

/-- The supply may go at any time and any primitive may report an error. -/
def storage : Faults where
  fail := failImage
  cut := cutImage
  fail_read h := h
  cut_read h := h

/-- Any damage at all inside the addresses of the primitive. -/
def confinedImage (p : Prim) (m m' : Flash) : Prop :=
  match p with
  | .read _ _ => m' = m
  | _ => ∀ a, ¬ (p.lo ≤ a ∧ a < p.hi) → m'.bytes a = m.bytes a

/-- A failed or interrupted primitive may leave anything inside its addresses. -/
def confined : Faults where
  fail := confinedImage
  cut := confinedImage
  fail_read h := h
  cut_read h := h

theorem none_le (F : Faults) : none.Le F := ⟨False.elim, False.elim⟩

theorem powerLoss_le_storage : powerLoss.Le storage := ⟨False.elim, id⟩

/-- A program torn alike at every byte. -/
theorem torn_torn (m : Flash) (offset : ℕ) (data : List UInt8) (mask : UInt8) :
    Torn offset data m (m.torn offset data mask) := by
  refine ⟨rfl, fun a => ?_⟩
  rw [Flash.torn]
  dsimp only
  split
  · exact ⟨mask, rfl⟩
  · rfl

/-- A program torn nowhere: the supply went before the first bit. -/
theorem Torn.refl (offset : ℕ) (data : List UInt8) (m : Flash) : Torn offset data m m := by
  refine ⟨rfl, fun a => ?_⟩
  split
  · refine ⟨-1, ?_⟩
    rw [UInt8.or_neg_one, UInt8.and_neg_one]
  · rfl

/-- A primitive may fail before it has done anything. -/
theorem storage_fail_idle (p : Prim) (m : Flash) : storage.fail p m m := by
  unfold storage failImage
  dsimp only
  split
  · rfl
  · rfl
  · exact Torn.refl _ _ _
  · rfl

theorem confined_fail_idle (p : Prim) (m : Flash) : confined.fail p m m := by
  cases p with
  | read offset len => rfl
  | write offset data => exact fun _ _ => rfl
  | erase first last => exact fun _ _ => rfl

end Faults

/-! ## The flash from a procedure

The driver's three calls, for a procedure whose errors carry the driver's. -/

section Calls

variable {ε η τ : Type}

/-- One primitive from a procedure. -/
def ask (wrap : ε → η) (p : Prim) : Proc Prim (Prim.Answer ε) η τ p.Reply :=
  fun t => .call p fun
    | .ok a => .pure (.ok a, t)
    | .error e => .pure (.error (wrap e), t)

def read (wrap : ε → η) (offset : UInt32) (len : ℕ) :
    Proc Prim (Prim.Answer ε) η τ (Vector UInt8 len) :=
  ask wrap (.read offset len)

def write (wrap : ε → η) (offset : UInt32) (data : List UInt8) :
    Proc Prim (Prim.Answer ε) η τ Unit :=
  ask wrap (.write offset data)

def erase (wrap : ε → η) (first last : UInt32) : Proc Prim (Prim.Answer ε) η τ Unit :=
  ask wrap (.erase first last)

variable {wrap : ε → η} {F : Faults} {G : Prim → Flash → Flash → Prop} {t : τ} {m : Flash}

/-- One primitive succeeds as `step` does, reports an error, or is cut. -/
theorem wp_ask {p : Prim} {Q : Result η τ p.Reply → Flash → Prop}
    (hG : ∀ m', G p m m')
    (hok : ∀ a m', (.ok a, m') = (step p m : p.Answer ε × Flash) → Q (.ok a t) m')
    (hfail : ∀ e m', F.fail p m m' → Q (.error (wrap e) t) m')
    (hcut : ∀ m', F.cut p m m' → Q .cut m') :
    Proc.wp (F.env ε) G (ask wrap p) Q t m := by
  refine ⟨fun r m' hr => ⟨hG m', ?_⟩, fun m' hc => ⟨hG m', hcut m' hc⟩⟩
  rcases hr with hs | ⟨⟨e, rfl⟩, hf⟩
  · cases p <;> cases hs <;> exact hok _ _ rfl
  · exact hfail e m' hf

/-- Reading is a look. -/
theorem looks_read {offset : UInt32} {len : ℕ} :
    Proc.Looks step wrap (read wrap offset len) t m [.read offset len] (m.slice offset.toNat len) :=
  .call rfl (fun _ => rfl) (.pure _)

/-- **Programming** a range. -/
theorem wp_write {offset : UInt32} {data : List UInt8} {Q : Result η τ Unit → Flash → Prop}
    (hG : ∀ m', G (.write offset data) m m')
    (hok : Q (.ok () t) (m.program offset.toNat data))
    (hfail : ∀ e m', F.fail (.write offset data) m m' → Q (.error (wrap e) t) m')
    (hcut : ∀ m', F.cut (.write offset data) m m' → Q .cut m') :
    Proc.wp (F.env ε) G (write wrap offset data) Q t m :=
  wp_ask hG (fun a m' h => by cases h; exact hok) hfail hcut

/-- **Erasing** a range. -/
theorem wp_erase {first last : UInt32} {Q : Result η τ Unit → Flash → Prop}
    (hG : ∀ m', G (.erase first last) m m')
    (hok : Q (.ok () t) (m.eraseRange first.toNat last.toNat))
    (hfail : ∀ e m', F.fail (.erase first last) m m' → Q (.error (wrap e) t) m')
    (hcut : ∀ m', F.cut (.erase first last) m m' → Q .cut m') :
    Proc.wp (F.env ε) G (erase wrap first last) Q t m :=
  wp_ask hG (fun a m' h => by cases h; exact hok) hfail hcut

end Calls

end NorFlash
