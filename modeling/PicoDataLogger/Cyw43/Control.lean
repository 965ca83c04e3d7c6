/-
`control.rs`: what `Control` asks of the chip.

Most of it is variables of the chip that are set and read by their names. A request is
the name, a zero and the value, in one buffer. The table of the regulatory limits
(`clm`) is a variable as well, but too long for a request: `load_clm` sends it in pieces
of 1024 bytes, each with a header that says whether it is the first and whether it is the
last. What the pieces are for is `Loader`: it has a table once it has all of it.

A call that is dropped may have been sent or not.
-/
import PicoDataLogger.Cyw43.Runner
import PicoDataLogger.Interaction

set_option autoImplicit false

namespace PicoDataLogger.Cyw43

open Interaction

/-! ## Calls -/

/-- What a function of `Control` awaits: `ioctl_inner`, with the contents of its buffer. -/
structure IoctlCall where
  kind : IoctlType
  cmd : Ioctl
  iface : UInt32
  buf : List UInt8

/-- The length of the response, and the buffer with it. -/
abbrev IoctlCall.Reply (_ : IoctlCall) : Type := ℕ × List UInt8

abbrev ControlM : Type → Type := Proc IoctlCall IoctlCall.Reply Halt Unit

def ioctl (kind : IoctlType) (cmd : Ioctl) (iface : UInt32) (buf : List UInt8) :
    ControlM (ℕ × List UInt8) := fun _ =>
  .call { kind, cmd, iface, buf } fun r => .pure (.ok r, ())

/-- `name.as_bytes()`: all names are ASCII. -/
def as_bytes (name : String) : List UInt8 := name.toList.map fun c => c.val.toUInt8

def set_iovar_v (BUFSIZE : ℕ) (name : String) (val : List UInt8) : ControlM Unit := do
  let name := as_bytes name
  if BUFSIZE < name.length + 1 + val.length then throw .panic
  else
    let _ ← ioctl .Set .SetVar 0 (name ++ 0 :: val)

def set_iovar (name : String) (val : List UInt8) : ControlM Unit := set_iovar_v 196 name val

def set_iovar_u32x2 (name : String) (val1 val2 : UInt32) : ControlM Unit :=
  set_iovar name (to_le_bytes 4 val1.toNat ++ to_le_bytes 4 val2.toNat)

/-- `get_iovar` into a buffer of `len` bytes: how many of them are the response, and these. -/
def get_iovar (name : String) (len : ℕ) : ControlM (ℕ × List UInt8) := do
  let name := as_bytes name
  let total_len := max (name.length + 1) len
  if 64 < total_len then throw .panic
  else
    let (res_len, buf) ← ioctl .Get .GetVar 0 (name ++ List.replicate (total_len - name.length) 0)
    let out_len := min len res_len
    return (out_len, buf.take out_len)

def get_iovar_u32 (name : String) : ControlM UInt32 := do
  let (len, buf) ← get_iovar name 4
  if len ≠ 4 then throw .panic
  else return UInt32.ofNat (from_le_bytes buf)

def gpio_get (gpio_n : UInt8) : ControlM (Option Bool) := do
  if 3 ≤ gpio_n then return none
  else
    let (len, buf) ← get_iovar "ccgpioin" 4
    if len ≠ 4 then return none
    else return some (UInt32.ofNat (from_le_bytes buf) &&& 1 <<< gpio_n.toUInt32 != 0)

def gpio_set (gpio_n : UInt8) (gpio_en : Bool) : ControlM Unit := do
  if 3 ≤ gpio_n then throw .panic
  else set_iovar_u32x2 "gpioout" (1 <<< gpio_n.toUInt32) (if gpio_en then 1 <<< gpio_n.toUInt32 else 0)

/-! ## The download -/

def DOWNLOAD_FLAG_BEGIN : UInt16 := 0x0002
def DOWNLOAD_FLAG_END : UInt16 := 0x0004
def DOWNLOAD_FLAG_HANDLER_VER : UInt16 := 0x1000
def DOWNLOAD_TYPE_CLM : UInt16 := 2
def CHUNK_SIZE : ℕ := 1024

structure DownloadHeader where
  flag : UInt16
  dload_type : UInt16
  len : UInt32
  crc : UInt32

def DownloadHeader.SIZE : ℕ := 12

def DownloadHeader.to_bytes (header : DownloadHeader) : List UInt8 :=
  to_le_bytes 2 header.flag.toNat ++ to_le_bytes 2 header.dload_type.toNat
    ++ to_le_bytes 4 header.len.toNat ++ to_le_bytes 4 header.crc.toNat

/-- `b"clmload\x00"` -/
def CLMLOAD : List UInt8 := as_bytes "clmload" ++ [0]

/-- The flags of a piece of `len` bytes that begins at `offs`. -/
def download_flag (offs len clm_len : ℕ) : UInt16 :=
  let flag := DOWNLOAD_FLAG_HANDLER_VER
  let flag := if offs = 0 then flag ||| DOWNLOAD_FLAG_BEGIN else flag
  if offs + len = clm_len then flag ||| DOWNLOAD_FLAG_END else flag

def clm_request (chunk : List UInt8) (offs clm_len : ℕ) : List UInt8 :=
  let header : DownloadHeader :=
    { flag := download_flag offs chunk.length clm_len
      dload_type := DOWNLOAD_TYPE_CLM
      len := UInt32.ofNat chunk.length
      crc := 0 }
  CLMLOAD ++ header.to_bytes ++ chunk

/-- The loop of `load_clm`, with what is left of the table. -/
def load_clm_loop (clm_len offs : ℕ) (clm : List UInt8) : ControlM Unit := do
  if _hclm : clm = [] then return ()
  else
    let chunk := clm.take CHUNK_SIZE
    let _ ← ioctl .Set .SetVar 0 (clm_request chunk offs clm_len)
    load_clm_loop clm_len (offs + chunk.length) (clm.drop CHUNK_SIZE)
termination_by clm.length
decreasing_by
  have hsize : CHUNK_SIZE = 1024 := rfl
  have hpos := List.length_pos_iff.mpr _hclm
  rw [List.length_drop]
  omega

def load_clm (clm : List UInt8) : ControlM Unit := do
  load_clm_loop clm.length 0 clm
  let status ← get_iovar_u32 "clmload_status"
  if status ≠ 0 then throw .panic

/-! ## The other end -/

def DownloadHeader.from_bytes (bytes : List UInt8) : DownloadHeader where
  flag := UInt16.ofNat (le_at bytes 0 2)
  dload_type := UInt16.ofNat (le_at bytes 2 2)
  len := UInt32.ofNat (le_at bytes 4 4)
  crc := UInt32.ofNat (le_at bytes 8 4)

/-- A table that is put together from its pieces: what there is of it since the first one, and the
last that was complete. -/
structure Loader where
  image : Option (List UInt8)
  loaded : Option (List UInt8)

/-- A piece, with its header. A piece that is not as long as its header says is not taken. -/
def Loader.piece (L : Loader) (header : DownloadHeader) (data : List UInt8) : Loader :=
  if header.dload_type = DOWNLOAD_TYPE_CLM ∧ header.len.toNat = data.length then
    let image := if header.flag &&& DOWNLOAD_FLAG_BEGIN ≠ 0 then some data else L.image.map (· ++ data)
    if header.flag &&& DOWNLOAD_FLAG_END ≠ 0 then { image := none, loaded := image }
    else { L with image }
  else L

/-- Any other request is not for it. -/
def Loader.request (L : Loader) (call : IoctlCall) : Loader :=
  if call.kind = .Set ∧ call.cmd = .SetVar ∧ call.buf.take 8 = CLMLOAD then
    L.piece (DownloadHeader.from_bytes (call.buf.drop 8)) (call.buf.drop (8 + DownloadHeader.SIZE))
  else L

/-- The chip answers what it likes. A call that is dropped may have got there. -/
def loading : Env IoctlCall IoctlCall.Reply Loader where
  respond call L _ L' := L' = L.request call
  cut call L L' := L' = L ∨ L' = L.request call

section Download

variable {clm chunk : List UInt8} {offs clm_len : ℕ} {L L' : Loader}

theorem DownloadHeader.from_to_bytes (header : DownloadHeader) (rest : List UInt8) :
    DownloadHeader.from_bytes (header.to_bytes ++ rest) = header := by
  have hflag : le_at (header.to_bytes ++ rest) 0 2 = from_le_bytes (to_le_bytes 2 header.flag.toNat) := by
    simp only [to_bytes, List.append_assoc]
    exact le_at_append [] _ _ rfl (length_to_le_bytes 2 _)
  have htype : le_at (header.to_bytes ++ rest) 2 2
      = from_le_bytes (to_le_bytes 2 header.dload_type.toNat) := by
    simp only [to_bytes, List.append_assoc]
    exact le_at_append _ _ _ (length_to_le_bytes 2 _) (length_to_le_bytes 2 _)
  have hlen : le_at (header.to_bytes ++ rest) 4 4 = from_le_bytes (to_le_bytes 4 header.len.toNat) := by
    rw [to_bytes, List.append_assoc, List.append_assoc]
    exact le_at_append _ _ _ (by simp) (length_to_le_bytes 4 _)
  have hcrc : le_at (header.to_bytes ++ rest) 8 4 = from_le_bytes (to_le_bytes 4 header.crc.toNat) := by
    rw [to_bytes, List.append_assoc]
    exact le_at_append _ _ _ (by simp) (length_to_le_bytes 4 _)
  rw [from_bytes, hflag, htype, hlen, hcrc, u16_from_to_le_bytes, u16_from_to_le_bytes,
    u32_from_to_le_bytes, u32_from_to_le_bytes]

@[simp] theorem DownloadHeader.length_to_bytes (header : DownloadHeader) : header.to_bytes.length = 12 := by
  simp [to_bytes]

/-- The flags are read back. -/
theorem download_flag_begin (offs len clm_len : ℕ) :
    download_flag offs len clm_len &&& DOWNLOAD_FLAG_BEGIN ≠ 0 ↔ offs = 0 := by
  unfold download_flag
  dsimp only
  by_cases hfirst : offs = 0
  · rw [if_pos hfirst]
    split
    · exact iff_of_true (by decide) hfirst
    · exact iff_of_true (by decide) hfirst
  · rw [if_neg hfirst]
    split
    · exact iff_of_false (by decide) hfirst
    · exact iff_of_false (by decide) hfirst

theorem download_flag_end (offs len clm_len : ℕ) :
    download_flag offs len clm_len &&& DOWNLOAD_FLAG_END ≠ 0 ↔ offs + len = clm_len := by
  unfold download_flag
  dsimp only
  by_cases hlast : offs + len = clm_len
  · rw [if_pos hlast]
    split
    · exact iff_of_true (by decide) hlast
    · exact iff_of_true (by decide) hlast
  · rw [if_neg hlast]
    split
    · exact iff_of_false (by decide) hlast
    · exact iff_of_false (by decide) hlast

/-- **A piece arrives.** -/
theorem request_clm (hchunk : chunk.length ≤ CHUNK_SIZE) (L : Loader) :
    L.request ⟨.Set, .SetVar, 0, clm_request chunk offs clm_len⟩
      = if offs + chunk.length = clm_len then
          { image := none, loaded := if offs = 0 then some chunk else L.image.map (· ++ chunk) }
        else { L with image := if offs = 0 then some chunk else L.image.map (· ++ chunk) } := by
  let header : DownloadHeader :=
    { flag := download_flag offs chunk.length clm_len
      dload_type := DOWNLOAD_TYPE_CLM
      len := UInt32.ofNat chunk.length
      crc := 0 }
  have hname : CLMLOAD.length = 8 := by decide
  have hsize : CHUNK_SIZE = 1024 := rfl
  have hbuf : clm_request chunk offs clm_len = CLMLOAD ++ (header.to_bytes ++ chunk) :=
    List.append_assoc _ _ _
  have hdrop : (CLMLOAD ++ (header.to_bytes ++ chunk)).drop 8 = header.to_bytes ++ chunk :=
    List.drop_left' hname
  have hdata : (CLMLOAD ++ (header.to_bytes ++ chunk)).drop (8 + DownloadHeader.SIZE) = chunk := by
    rw [← List.drop_drop, hdrop]
    exact List.drop_left' header.length_to_bytes
  have hlen : header.len.toNat = chunk.length := by
    change (UInt32.ofNat chunk.length).toNat = _
    rw [UInt32.toNat_ofNat']
    omega
  have hbegin := download_flag_begin offs chunk.length clm_len
  have hend := download_flag_end offs chunk.length clm_len
  rw [Loader.request, if_pos ⟨rfl, rfl, by rw [hbuf]; exact List.take_left' hname⟩]
  dsimp only
  rw [hbuf, hdrop, hdata, DownloadHeader.from_to_bytes, Loader.piece, if_pos ⟨rfl, hlen⟩]
  simp only [header, hbegin, hend]

variable {G : IoctlCall → Loader → Loader → Prop}

theorem ioctl_wp {kind : IoctlType} {cmd : Ioctl} {iface : UInt32} {buf : List UInt8}
    {Q : Result Halt Unit (ℕ × List UInt8) → Loader → Prop}
    (hG : ∀ L', G ⟨kind, cmd, iface, buf⟩ L L')
    (hok : ∀ r, Q (.ok r ()) (L.request ⟨kind, cmd, iface, buf⟩))
    (hcut : Q .cut L ∧ Q .cut (L.request ⟨kind, cmd, iface, buf⟩)) :
    Proc.wp loading G (ioctl kind cmd iface buf) Q () L := by
  refine ⟨?_, ?_⟩
  · rintro r _ rfl
    exact ⟨hG _, hok r⟩
  · rintro _ (rfl | rfl)
    · exact ⟨hG _, hcut.1⟩
    · exact ⟨hG _, hcut.2⟩

/-- What a call sends fits the buffer of the runner. -/
def Fits (call : IoctlCall) (_ _ : Loader) : Prop :=
  SdpcmHeader.SIZE + CdcHeader.SIZE + call.buf.length ≤ BUF_SIZE

/-- **The loop.** What has been sent is what the loader has, and the table is complete with
the last piece and not before. -/
theorem load_clm_loop_wp (hsofar : offs = 0 ∨ L.image = some (clm.take offs))
    {Q : Result Halt Unit Unit → Loader → Prop}
    (hcut : ∀ L', L'.loaded = L.loaded ∨ L'.loaded = some clm → Q .cut L')
    (hok : ∀ L', (offs < clm.length → L'.loaded = some clm) → (clm.length ≤ offs → L' = L) →
      Q (.ok () ()) L') :
    Proc.wp loading Fits (load_clm_loop clm.length offs (clm.drop offs)) Q () L := by
  induction hleft : clm.length - offs using Nat.strong_induction_on generalizing offs L with
  | _ left ih =>
    by_cases hrest : offs < clm.length
    · let chunk := (clm.drop offs).take CHUNK_SIZE
      let L₁ := L.request ⟨.Set, .SetVar, 0, clm_request chunk offs clm.length⟩
      have hsize : CHUNK_SIZE = 1024 := rfl
      have hbuf : BUF_SIZE = 2048 := rfl
      have hheaders : SdpcmHeader.SIZE + CdcHeader.SIZE = 28 := rfl
      have hne : clm.drop offs ≠ [] := by
        rw [ne_eq, List.drop_eq_nil_iff]
        omega
      have hlen : chunk.length = min CHUNK_SIZE (clm.length - offs) := by
        rw [List.length_take, List.length_drop]
      have himage : (if offs = 0 then some chunk else L.image.map (· ++ chunk))
          = some (clm.take (offs + chunk.length)) := by
        have htake : clm.take (offs + chunk.length) = clm.take offs ++ chunk := by
          rw [List.take_add, ← List.prefix_iff_eq_take.mp (List.take_prefix _ _)]
        by_cases hfirst : offs = 0
        · rw [if_pos hfirst, htake, hfirst, List.take_zero, List.nil_append]
        · rw [if_neg hfirst, hsofar.resolve_left hfirst, htake]
          rfl
      have hL₁ : L₁ = if offs + chunk.length = clm.length then
            { image := none, loaded := some (clm.take (offs + chunk.length)) }
          else { L with image := some (clm.take (offs + chunk.length)) } := by
        rw [← himage]
        exact request_clm (by omega) L
      have hloaded : L₁.loaded = L.loaded ∨ L₁.loaded = some clm := by
        rw [hL₁]
        split
        · rename_i hlast
          exact .inr (by rw [hlast, List.take_length])
        · exact .inl rfl
      have hnext : (clm.drop offs).drop CHUNK_SIZE = clm.drop (offs + chunk.length) := by
        rw [List.drop_drop]
        by_cases hfull : CHUNK_SIZE ≤ clm.length - offs
        · rw [hlen, min_eq_left hfull]
        · rw [List.drop_eq_nil_iff.mpr (by omega), List.drop_eq_nil_iff.mpr (by omega)]
      rw [load_clm_loop, dif_neg hne]
      refine (Proc.wp_bind _ _ _ _ _).mpr (ioctl_wp ?_ ?_ ?_)
      · intro _
        have hclm : CLMLOAD.length = 8 := by decide
        have hrequest : (clm_request chunk offs clm.length).length = 8 + 12 + chunk.length := by
          rw [clm_request, List.length_append, List.length_append, hclm, DownloadHeader.length_to_bytes]
        rw [Fits, hrequest]
        omega
      · intro _
        change Proc.wp loading Fits (load_clm_loop clm.length (offs + chunk.length)
          ((clm.drop offs).drop CHUNK_SIZE)) Q () L₁
        rw [hnext]
        by_cases hlast : offs + chunk.length = clm.length
        · have hdone : L₁.loaded = some clm := by rw [hL₁, if_pos hlast, hlast, List.take_length]
          rw [hlast, List.drop_length, load_clm_loop, dif_pos rfl]
          exact hok L₁ (fun _ => hdone) fun h => by omega
        · have hmore : offs + chunk.length < clm.length := by omega
          rw [if_neg hlast] at hL₁
          refine ih (clm.length - (offs + chunk.length)) (by omega) (.inr (by rw [hL₁])) ?_ ?_ rfl
          · intro L' hL'
            rw [hL₁] at hL'
            exact hcut L' hL'
          · intro L' hL' _
            exact hok L' (fun _ => hL' hmore) fun h => by omega
      · exact ⟨hcut L (.inl rfl), hcut L₁ hloaded⟩
    · rw [load_clm_loop, dif_pos (List.drop_eq_nil_iff.mpr (Nat.not_lt.mp hrest))]
      exact hok L (fun h => absurd h hrest) fun _ => rfl

/-- Reading a variable leaves the loader as it is. -/
theorem get_iovar_u32_wp (name : String) {Q : Result Halt Unit UInt32 → Loader → Prop}
    (hok : ∀ val, Q (.ok val ()) L) (herror : Q (.error .panic ()) L) (hcut : Q .cut L) :
    Proc.wp loading Fits (get_iovar_u32 name) Q () L := by
  have hget : ∀ cmd buf, L.request ⟨.Get, cmd, 0, buf⟩ = L := by
    intro cmd buf
    rw [Loader.request, if_neg]
    rintro ⟨hkind, -⟩
    cases hkind
  unfold get_iovar_u32
  rw [Proc.wp_bind]
  unfold get_iovar
  dsimp only
  split
  · exact herror
  · rename_i hlong
    rw [Proc.wp_bind]
    apply ioctl_wp
    · intro _
      have hbuf : BUF_SIZE = 2048 := rfl
      have hheaders : SdpcmHeader.SIZE + CdcHeader.SIZE = 28 := rfl
      rw [Fits, List.length_append, List.length_replicate]
      omega
    · intro r
      rw [hget]
      change Proc.wp loading Fits (if min 4 r.1 ≠ 4 then throw .panic
        else pure (UInt32.ofNat (from_le_bytes (r.2.take (min 4 r.1))))) Q () L
      split
      · exact herror
      · exact hok _
    · rw [hget]
      exact ⟨hcut, hcut⟩

end Download

end PicoDataLogger.Cyw43
