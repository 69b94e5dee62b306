import KluxOS.Drivers.Printf
import KluxOS.Kernel.State

namespace KluxOS.Pci

def pciConfigAddress : Uint16 := 0xCF8#16

def pciConfigData : Uint16 := 0xCFC#16

-- the ports of a host bridge whose state is an H
structure PciHost (H : Type) where
  outl : Uint16 → Uint32 → H → H
  outb : Uint16 → Uint8 → H → H
  inl : Uint16 → H → Uint32
  inb : Uint16 → H → Uint8

-- a bridge reads at the last address it was given: a double word, its two lowest bits not decoded
structure Latches {H : Type} (b : PciHost H) : Prop where
  last : ∀ (a a' : Uint32) (h : H),
    b.inl pciConfigData (b.outl pciConfigAddress a' (b.outl pciConfigAddress a h)) =
      b.inl pciConfigData (b.outl pciConfigAddress a' h)
  decoded : ∀ (a a' : Uint32) (h : H), a >>> 2 = a' >>> 2 →
    b.inl pciConfigData (b.outl pciConfigAddress a h) =
      b.inl pciConfigData (b.outl pciConfigAddress a' h)
  whole : ∀ (value : Uint8) (h : H),
    b.inb pciConfigData (b.outb pciConfigAddress value h) = b.inb pciConfigData h

section Mechanism

-- the address latched last, and the registers of each function on the bus
structure ConfigSpace where
  config_address : Uint32
  registers : Uint8 → BitVec 5 → BitVec 3 → BitVec 6 → Uint32

namespace ConfigSpace

variable (c : ConfigSpace)

-- bit 31 enables the access
def config : Uint32 :=
  let a := c.config_address
  if a.getLsbD 31 then
    c.registers (a.extractLsb' 16 8) (a.extractLsb' 11 5) (a.extractLsb' 8 3) (a.extractLsb' 2 6)
  else 0xFFFFFFFF#32

def ports : PciHost ConfigSpace where
  outl := fun port value c =>
    if port = pciConfigAddress then { c with config_address := value } else c
  outb := fun _ _ c => c
  inl := fun port c =>
    if port = pciConfigAddress then c.config_address
    else if port = pciConfigData then c.config else 0xFFFFFFFF#32
  inb := fun port c => if port = pciConfigData then c.config.setWidth 8 else 0xFF#8

theorem bit_of_shift {a a' : Uint32} (h : a >>> 2 = a' >>> 2) {i : ℕ} (hi : 2 ≤ i) :
    a.getLsbD i = a'.getLsbD i := by
  obtain ⟨k,rfl⟩ := Nat.exists_eq_add_of_le hi
  have hbit := congrArg (fun v : Uint32 => v.getLsbD k) h
  simpa only [BitVec.getLsbD_ushiftRight] using hbit

theorem field_of_shift {a a' : Uint32} (h : a >>> 2 = a' >>> 2) {start : ℕ} (hstart : 2 ≤ start)
    (width : ℕ) : a.extractLsb' start width = a'.extractLsb' start width := by
  refine BitVec.eq_of_getLsbD_eq fun i hi => ?_
  rw [BitVec.getLsbD_extractLsb',BitVec.getLsbD_extractLsb',
    bit_of_shift h (hstart.trans (Nat.le_add_right _ _))]

theorem ports_latch : Latches ports where
  last := fun _ _ _ => rfl
  decoded := fun a a' c h => by
    change ({ c with config_address := a } : ConfigSpace).config =
      ({ c with config_address := a' } : ConfigSpace).config
    simp only [config,bit_of_shift h (show 2 ≤ 31 by decide),field_of_shift h (show 2 ≤ 16 by decide),
      field_of_shift h (show 2 ≤ 11 by decide),field_of_shift h (show 2 ≤ 8 by decide),
      field_of_shift h (Nat.le_refl 2)]
  whole := fun _ _ => rfl

end ConfigSpace

end Mechanism

section Search

variable {H Card : Type}

-- the two loops of the searches, over a static structure for the card
def busDevices : List (Uint8 × Uint8) :=
  (List.range 256).flatMap fun bus =>
    (List.range 32).map fun device => (BitVec.ofNat 8 bus,BitVec.ofNat 8 device)

def findCard (probe : Uint8 → Uint8 → H → H × Option Card) :
    List (Uint8 × Uint8) → H → H × Option Card
  | [],h => (h,none)
  | (bus,device) :: rest,h =>
    match probe bus device h with
    | (h,some card) => (h,some card)
    | (h,none) => findCard probe rest h

theorem findCard_none {probe : Uint8 → Uint8 → H → H × Option Card}
    (hprobe : ∀ bus device h, (probe bus device h).2 = none) (places : List (Uint8 × Uint8))
    (h : H) : (findCard probe places h).2 = none := by
  induction places generalizing h with
  | nil => rfl
  | cons place places ih =>
    have hnone := hprobe place.1 place.2 h
    rw [findCard]
    split
    · next hsome =>
      rw [hsome] at hnone
      cases hnone
    · exact ih _

end Search

section Network

variable {H : Type} (b : PciHost H)

structure PciDevice where
  vendor_id : Uint16
  device_id : Uint16

def pciAddress (bus device func offset : Uint8) : Uint32 :=
  bus.setWidth 32 <<< 16 ||| device.setWidth 32 <<< 11 ||| func.setWidth 32 <<< 8 |||
    (offset.setWidth 32 &&& 0xFC#32) ||| 0x80000000#32

-- pci_read goes through the byte ports
def pciRead (bus device func offset : Uint8) (h : H) : H × Uint32 :=
  let h := b.outb pciConfigAddress ((pciAddress bus device func offset).setWidth 8) h
  (h,(b.inb pciConfigData h).setWidth 32)

def probeNetwork (bus device : Uint8) (h : H) : H × Option PciDevice :=
  let (h,id) := pciRead b bus device 0#8 0#8 h
  if id &&& 0xFFFF#32 ≠ 0xFFFF#32 then
    let (h,class_code) := pciRead b bus device 0#8 0x0B#8 h
    let (h,subclass) := pciRead b bus device 0#8 0x0A#8 h
    if class_code.setWidth 8 = 0x02#8 ∧ subclass.setWidth 8 = 0x00#8 then
      (h,some ⟨id.setWidth 16,(id >>> 16).setWidth 16⟩)
    else (h,none)
  else (h,none)

def pciFindNetworkCard (h : H) : H × Option PciDevice := findCard (probeNetwork b) busDevices h

variable {b} (hlatch : Latches b)

include hlatch

theorem pciRead_class (bus device func : Uint8) (h : H) :
    (pciRead b bus device func 0x0A#8 (pciRead b bus device func 0x0B#8 h).1).2 =
      (pciRead b bus device func 0x0B#8 h).2 :=
  congrArg (BitVec.setWidth 32) (hlatch.whole _ _)

-- both bytes are read from where the address was before
theorem probeNetwork_none (bus device : Uint8) (h : H) : (probeNetwork b bus device h).2 = none := by
  simp only [probeNetwork,pciRead_class hlatch]
  split
  · refine congrArg Prod.snd (if_neg ?_)
    rintro ⟨hclass,hsubclass⟩
    exact absurd (hclass.symm.trans hsubclass) (by decide)
  · rfl

theorem pciFindNetworkCard_none (h : H) : (pciFindNetworkCard b h).2 = none :=
  findCard_none (probeNetwork_none hlatch) busDevices h

end Network

section Wireless

variable {H : Type} (b : PciHost H)

structure PcieDevice where
  vendor_id : Uint16
  device_id : Uint16
  class_code : Uint8
  subclass : Uint8

def pcieConfigAddress : Uint32 := 0xE0000000#32

def pcieClassNetwork : Uint8 := 0x02#8

def pcieSubclassWifi : Uint8 := 0x80#8

def pcieReadConfig (bus device function offset : Uint8) (h : H) : H × Uint32 :=
  let address := pcieConfigAddress ||| bus.setWidth 32 <<< 20 ||| device.setWidth 32 <<< 15 |||
    function.setWidth 32 <<< 12 ||| offset.setWidth 32
  let h := b.outl pciConfigAddress address h
  (h,b.inl pciConfigData h)

def probeWifi (bus device : Uint8) (h : H) : H × Option PcieDevice :=
  let (h,id) := pcieReadConfig b bus device 0#8 0#8 h
  if id &&& 0xFFFF#32 ≠ 0xFFFF#32 then
    let (h,class_code) := pcieReadConfig b bus device 0#8 0x0B#8 h
    let (h,subclass) := pcieReadConfig b bus device 0#8 0x0A#8 h
    if class_code.setWidth 8 = pcieClassNetwork ∧ subclass.setWidth 8 = pcieSubclassWifi then
      (h,some ⟨id.setWidth 16,(id >>> 16).setWidth 16,class_code.setWidth 8,subclass.setWidth 8⟩)
    else (h,none)
  else (h,none)

def unknownCard : CString := terminalPrintf "Wireless Kart (ID: 0x%04X)".toList

def intelCard (device_id : Uint16) : CString :=
  if device_id = 0x0042#16 then "Centrino Ultimate-N 6300".toList
  else if device_id = 0x0085#16 ∨ device_id = 0x0082#16 then "Centrino Advanced-N 6205".toList
  else if device_id = 0x0091#16 then "Wireless-AC 7260".toList
  else if device_id = 0x2526#16 then "Wireless-AC 9260".toList
  else if device_id = 0x2723#16 ∨ device_id = 0x095a#16 then "Wireless-AC 9560".toList
  else if device_id = 0x3165#16 then "Wireless-AC 3165".toList
  else if device_id = 0x08b1#16 then "Wireless-AC 7265".toList
  else unknownCard

def atherosCard (device_id : Uint16) : CString :=
  if device_id = 0x0030#16 then "AR93xx".toList
  else if device_id = 0x0032#16 then "AR9485".toList
  else if device_id = 0x0033#16 then "AR9580".toList
  else if device_id = 0x0042#16 then "QCA9377".toList
  else if device_id = 0x003e#16 then "QCA6174".toList
  else unknownCard

def broadcomCard (device_id : Uint16) : CString :=
  if device_id = 0x4315#16 then "BCM4312".toList
  else if device_id = 0x4357#16 then "BCM43225".toList
  else if device_id = 0x4727#16 then "BCM4313".toList
  else if device_id = 0x4353#16 then "BCM43224".toList
  else if device_id = 0x432b#16 then "BCM4322".toList
  else if device_id = 0x43a0#16 then "BCM4360".toList
  else unknownCard

def ralinkCard (device_id : Uint16) : CString :=
  if device_id = 0x0601#16 then "RT2800".toList
  else if device_id = 0x0781#16 then "RT2700/RT2800".toList
  else if device_id = 0x3090#16 then "RT3090".toList
  else if device_id = 0x3062#16 then "RT3062".toList
  else if device_id = 0x539b#16 then "RT5390".toList
  else unknownCard

def PcieDevice.text (dev : PcieDevice) : CString :=
  "WiFi karti bulundu: ".toList ++
    (if dev.vendor_id = 0x8086#16 then "Intel ".toList ++ intelCard dev.device_id
    else if dev.vendor_id = 0x168c#16 then "Qualcomm Atheros ".toList ++ atherosCard dev.device_id
    else if dev.vendor_id = 0x14e4#16 then "Broadcom ".toList ++ broadcomCard dev.device_id
    else if dev.vendor_id = 0x1814#16 then "Ralink/MediaTek ".toList ++ ralinkCard dev.device_id
    else terminalPrintf "Bilinmeyen Uretici (ID: 0x%04X), Cihaz ID: 0x%04X".toList) ++ ['\n']

def pcieFindWifiCard (h : H) : H × Option PcieDevice := findCard (probeWifi b) busDevices h

theorem shift_offset (a : Uint32) : (a ||| 0x0A#32) >>> 2 = (a ||| 0x0B#32) >>> 2 := by
  rw [BitVec.ushiftRight_or_distrib,BitVec.ushiftRight_or_distrib]
  rfl

variable {b} (hlatch : Latches b)

include hlatch

theorem pcieReadConfig_class (bus device function : Uint8) (h : H) :
    (pcieReadConfig b bus device function 0x0A#8
      (pcieReadConfig b bus device function 0x0B#8 h).1).2 =
      (pcieReadConfig b bus device function 0x0B#8 h).2 :=
  (hlatch.last _ _ h).trans (hlatch.decoded _ _ h (shift_offset _))

-- the class and the subclass are read as the same byte
theorem probeWifi_none (bus device : Uint8) (h : H) : (probeWifi b bus device h).2 = none := by
  simp only [probeWifi,pcieReadConfig_class hlatch]
  split
  · refine congrArg Prod.snd (if_neg ?_)
    rintro ⟨hclass,hsubclass⟩
    exact absurd (hclass.symm.trans hsubclass) (by decide)
  · rfl

theorem pcieFindWifiCard_none (h : H) : (pcieFindWifiCard b h).2 = none :=
  findCard_none (probeWifi_none hlatch) busDevices h

end Wireless

end KluxOS.Pci
