import KluxOS.Net.Network

namespace KluxOS.Net

open ByteOrder ByteSequence

structure ReceivingDevice extends NetworkDevice where
  receive : List Uint8 → Uint32 → ℤ

-- received lists the calls of the device's receive
structure ReceiveState where
  current_device : Option ReceivingDevice
  received : List (List Uint8 × Uint32)

def deviceReceive (s : ReceiveState) (device : ReceivingDevice) (data : List Uint8)
    (length : Uint32) : ReceiveState × ℤ :=
  ({ s with received := s.received ++ [(data,length)] },device.receive data length)

def joinBytes (hi lo : Uint8) : Uint16 := (hi.setWidth 16 <<< 8) ||| lo.setWidth 16

-- buffer holds the bytes that may be read; a read past them gives none
def networkReceivePacket (s : ReceiveState) (buffer : Option (List Uint8)) (length : Uint32) :
    Option (ReceiveState × ℤ) :=
  match s.current_device,buffer with
  | none, _ => some (s,-1)
  | some _, none => some (s,-2)
  | some device, some data =>
    if length < 14#32 then some (s,-2)
    else do
      let hi ← data[12]?
      let lo ← data[13]?
      let eth_type := joinBytes hi lo
      if eth_type ≠ 0x0800#16 ∧ eth_type ≠ 0x0806#16 then some (s,-3)
      else if eth_type = 0x0800#16 ∧ 34#32 ≤ length then do
        let first ← data[14]?
        let ip_version := (first >>> 4) &&& 0x0F#8
        if ip_version ≠ 4#8 then some (s,-4)
        else some (deviceReceive s device data length)
      else some (deviceReceive s device data length)

section Frame

def etherType (data : List Uint8) : ℕ := bigEndian (slice data 12 2)

def ipVersion (data : List Uint8) : ℕ := ((data.drop 14).headD 0#8).toNat / 16

def WellFormedFrame (data : List Uint8) : Prop :=
  14 ≤ data.length ∧ (etherType data = 0x0806 ∨
    (etherType data = 0x0800 ∧ 34 ≤ data.length ∧ ipVersion data = 4))

-- the device gets the well-formed frames and no others, and the call never reads past the buffer
def AcceptsExactly (s : ReceiveState) (device : ReceivingDevice) (buffer : Option (List Uint8))
    (length : Uint32) : Prop :=
  ∃ t status, networkReceivePacket s buffer length = some (t,status) ∧
    ((∃ data, buffer = some data ∧ WellFormedFrame data ∧
        (t,status) = deviceReceive s device data length) ∨
      ((∀ data, buffer = some data → ¬ WellFormedFrame data) ∧ t.received = s.received ∧
        status < 0))

theorem joinBytes_toNat (hi lo : Uint8) : (joinBytes hi lo).toNat = hi.toNat * 256 + lo.toNat := by
  have hlo := lo.isLt
  have hhi := hi.isLt
  have hor := Nat.shiftLeft_add_eq_or_of_lt hlo hi.toNat
  rw [joinBytes,BitVec.toNat_or,BitVec.toNat_shiftLeft,BitVec.toNat_setWidth,BitVec.toNat_setWidth,
    Nat.mod_eq_of_lt (by omega : hi.toNat < 2 ^ 16),Nat.mod_eq_of_lt (by omega : lo.toNat < 2 ^ 16),
    Nat.mod_eq_of_lt (by rw [Nat.shiftLeft_eq]; omega),← hor,Nat.shiftLeft_eq]

theorem highNibble (first : Uint8) :
    (first >>> 4) &&& 0x0F#8 = 4#8 ↔ first.toNat / 16 = 4 := by
  rw [← BitVec.toNat_inj,BitVec.toNat_and,BitVec.toNat_ushiftRight,Nat.shiftRight_eq_div_pow]
  have hmask := Nat.and_two_pow_sub_one_eq_mod (first.toNat / 2 ^ 4) 4
  have hlt := first.isLt
  change (first.toNat / 2 ^ 4) &&& (2 ^ 4 - 1) = 4 ↔ _
  omega

variable {data : List Uint8}

theorem etherType_bytes (h : 14 ≤ data.length) : ∃ hi lo, data[12]? = some hi ∧
    data[13]? = some lo ∧ (joinBytes hi lo).toNat = etherType data := by
  refine ⟨data[12],data[13],List.getElem?_eq_getElem (by omega),List.getElem?_eq_getElem (by omega),?_⟩
  have hslice : slice data 12 2 = [data[12],data[13]] := by
    rw [slice,List.drop_eq_getElem_cons (by omega),List.drop_eq_getElem_cons (by omega)]
    rfl
  rw [joinBytes_toNat,etherType,hslice]
  simp only [bigEndian,littleEndian,List.reverse_cons,List.reverse_nil,List.nil_append,
    List.cons_append,List.map_cons,List.map_nil,Nat.ofDigits_cons,Nat.ofDigits_nil]
  omega

theorem ipVersion_byte (h : 15 ≤ data.length) : ∃ first : Uint8, data[14]? = some first ∧
    ((first >>> 4) &&& 0x0F#8 = 4#8 ↔ ipVersion data = 4) := by
  refine ⟨data[14],List.getElem?_eq_getElem (by omega),?_⟩
  rw [highNibble,ipVersion,List.drop_eq_getElem_cons (by omega),List.headD_cons]

end Frame

section Verdict

variable {s : ReceiveState} {device : ReceivingDevice} {data : List Uint8} {length : Uint32}

variable (hdevice : s.current_device = some device) (hlength : data.length = length.toNat)

include hdevice

theorem networkReceivePacket_null (length : Uint32) :
    networkReceivePacket s none length = some (s,-2) := by
  simp only [networkReceivePacket,hdevice]

include hlength

theorem networkReceivePacket_short (h : data.length < 14) :
    networkReceivePacket s (some data) length = some (s,-2) := by
  simp only [networkReceivePacket,hdevice]
  exact if_pos (by rw [BitVec.lt_def,← hlength]; exact h)

-- past the length test, the code decides on the type and, for a frame of 34 bytes, the version
theorem networkReceivePacket_long (h : 14 ≤ data.length) :
    networkReceivePacket s (some data) length =
      if etherType data ≠ 0x0800 ∧ etherType data ≠ 0x0806 then some (s,-3)
      else if etherType data = 0x0800 ∧ 34 ≤ data.length ∧ ipVersion data ≠ 4 then some (s,-4)
      else some (deviceReceive s device data length) := by
  obtain ⟨hi,lo,hhi,hlo,htype⟩ := etherType_bytes h
  have hlong : ¬ length < 14#32 := by
    rw [BitVec.lt_def,← hlength]
    exact Nat.not_lt.mpr h
  have hip : 34#32 ≤ length ↔ 34 ≤ data.length := by rw [BitVec.le_def,hlength]; rfl
  have hword {w : Uint16} {n : ℕ} (hw : w.toNat = n) : joinBytes hi lo = w ↔ etherType data = n := by
    rw [← htype,← hw]
    exact BitVec.toNat_inj.symm
  have hip4 : joinBytes hi lo = 0x0800#16 ↔ etherType data = 0x0800 := hword (by decide)
  have harp : joinBytes hi lo = 0x0806#16 ↔ etherType data = 0x0806 := hword (by decide)
  simp only [networkReceivePacket,hdevice,if_neg hlong,hhi,hlo,Option.bind_eq_bind,
    Option.bind_some,ne_eq,hip4,harp,hip]
  refine if_congr Iff.rfl rfl ?_
  by_cases hheader : etherType data = 0x0800 ∧ 34 ≤ data.length
  · obtain ⟨first,hfirst,hversion⟩ := ipVersion_byte (by omega : 15 ≤ data.length)
    rw [if_pos hheader,hfirst,Option.bind_some]
    exact if_congr ((not_congr hversion).trans
      ⟨fun hv => ⟨hheader.1,hheader.2,hv⟩,fun hv => hv.2.2⟩) rfl rfl
  · rw [if_neg hheader,if_neg fun hv => hheader ⟨hv.1,hv.2.1⟩]

omit hdevice hlength in
theorem acceptsExactly_refused {status : ℤ}
    (hcall : networkReceivePacket s (some data) length = some (s,status)) (hstatus : status < 0)
    (hbad : ¬ WellFormedFrame data) : AcceptsExactly s device (some data) length := by
  refine ⟨s,status,hcall,.inr ⟨fun d hd => ?_,rfl,hstatus⟩⟩
  cases hd
  exact hbad

omit hdevice hlength in
theorem acceptsExactly_delivered
    (hcall : networkReceivePacket s (some data) length =
      some (deviceReceive s device data length)) :
    AcceptsExactly s device (some data) length ↔ WellFormedFrame data := by
  constructor
  · rintro ⟨t,status,ht,⟨d,hd,hgood,-⟩ | ⟨-,hreceived,-⟩⟩
    · cases hd
      exact hgood
    · rw [hcall] at ht
      cases ht
      simp at hreceived
  · exact fun hgood => ⟨_,_,hcall,.inl ⟨data,rfl,hgood,rfl⟩⟩

theorem acceptsExactly_frame : AcceptsExactly s device (some data) length ↔
    (14 ≤ data.length → etherType data = 0x0800 → 34 ≤ data.length) := by
  by_cases hlong : 14 ≤ data.length
  · have hcall := networkReceivePacket_long hdevice hlength hlong
    by_cases harp : etherType data = 0x0806
    · have hip : etherType data ≠ 0x0800 := by omega
      rw [if_neg fun hother => hother.2 harp,if_neg fun hheader => hip hheader.1] at hcall
      rw [acceptsExactly_delivered hcall]
      exact ⟨fun _ _ h => absurd h hip,fun _ => ⟨hlong,.inl harp⟩⟩
    by_cases hip : etherType data = 0x0800
    · rw [if_neg fun hother => hother.1 hip] at hcall
      by_cases hheader : 34 ≤ data.length ∧ ipVersion data ≠ 4
      · rw [if_pos ⟨hip,hheader⟩] at hcall
        refine ⟨fun _ _ _ => hheader.1,fun _ => acceptsExactly_refused hcall (by decide) ?_⟩
        exact fun hgood => hgood.2.elim harp fun h => hheader.2 h.2.2
      · rw [if_neg fun h => hheader h.2] at hcall
        rw [acceptsExactly_delivered hcall]
        refine ⟨fun hgood _ _ => ?_,fun hfits => ⟨hlong,.inr ⟨hip,hfits hlong hip,?_⟩⟩⟩
        · exact (hgood.2.resolve_left harp).2.1
        · by_contra hversion
          exact hheader ⟨hfits hlong hip,hversion⟩
    · rw [if_pos ⟨hip,harp⟩] at hcall
      refine ⟨fun _ _ h => absurd h hip,fun _ => acceptsExactly_refused hcall (by decide) ?_⟩
      exact fun hgood => hgood.2.elim harp fun h => hip h.1
  · have hcall := networkReceivePacket_short hdevice hlength (Nat.not_le.mp hlong)
    exact ⟨fun _ h => absurd h hlong,
      fun _ => acceptsExactly_refused hcall (by decide) fun hgood => hlong hgood.1⟩

end Verdict

theorem receive_accepts_exactly (s : ReceiveState) (device : ReceivingDevice)
    (hdevice : s.current_device = some device) (buffer : Option (List Uint8)) (length : Uint32)
    (hbuffer : ∀ data, buffer = some data → data.length = length.toNat) :
    AcceptsExactly s device buffer length ↔ ∀ data, buffer = some data →
      14 ≤ data.length → etherType data = 0x0800 → 34 ≤ data.length := by
  cases buffer with
  | none =>
    refine ⟨fun _ _ h => absurd h nofun,fun _ => ?_⟩
    exact ⟨s,-2,networkReceivePacket_null hdevice length,.inr ⟨fun _ h => absurd h nofun,rfl,by decide⟩⟩
  | some data =>
    rw [acceptsExactly_frame hdevice (hbuffer data rfl)]
    exact ⟨fun h d hd => Option.some.inj hd ▸ h,fun h => h data rfl⟩

def quietDevice : ReceivingDevice := { nullDevice with receive := fun _ _ => 0 }

-- broadcast to a station, typed ARP, with nothing behind the Ethernet header
def arpFrame : List Uint8 := List.replicate 12 0xff#8 ++ [0x08#8,0x06#8]

def shortIpFrame : List Uint8 := List.replicate 12 0xff#8 ++ [0x08#8,0x00#8]

theorem arp_frame_received : AcceptsExactly ⟨some quietDevice,[]⟩ quietDevice (some arpFrame) 14#32 :=
  (receive_accepts_exactly ⟨some quietDevice,[]⟩ quietDevice rfl (some arpFrame) 14#32
    (by rintro _ ⟨⟩; decide)).mpr (by rintro _ ⟨⟩ - htype; exact absurd htype (by decide))

theorem short_ip_frame_received : ¬ WellFormedFrame shortIpFrame ∧
    ¬ AcceptsExactly ⟨some quietDevice,[]⟩ quietDevice (some shortIpFrame) 14#32 := by
  refine ⟨fun hgood => ?_,?_⟩
  · rcases hgood.2 with harp | hip
    · exact absurd harp (by decide)
    · exact absurd hip.2.1 (by decide)
  · rw [acceptsExactly_frame rfl (by decide)]
    exact fun h => absurd (h (by decide) (by decide)) (by decide)

end KluxOS.Net
