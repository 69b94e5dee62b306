import KluxOS.Kernel.State
import KluxOS.Lib.ByteOrder
import KluxOS.Security.Firewall

namespace KluxOS.Net

open ByteOrder ByteSequence

-- send is the driver's return value for the bytes at data and the length
structure NetworkDevice where
  ip_address : Uint32
  send : List Uint8 → Uint32 → ℤ

-- sent lists the calls of the device's send
structure NetworkState where
  firewall : Firewall
  current_device : Option NetworkDevice
  sent : List (List Uint8 × Uint32)
  kernel : KernelState

structure PacketArguments where
  dst_ip : Uint32
  src_port : Uint16
  dst_port : Uint16
  protocol : Uint8
deriving DecidableEq

section Send

-- native loads on a little-endian machine; data is the readable memory from the pointer on
def load32 (data : List Uint8) (off : ℕ) : Option Uint32 :=
  (readAt data off 4).map fun bs => BitVec.ofNat 32 (littleEndian bs)

def load16 (data : List Uint8) (off : ℕ) : Option Uint16 :=
  (readAt data off 2).map fun bs => BitVec.ofNat 16 (littleEndian bs)

def packetArguments (data : List Uint8) : Option PacketArguments := do
  let dst_ip ← load32 data 16
  let src_port ← load16 data 20
  let dst_port ← load16 data 22
  let protocol ← data[9]?
  some { dst_ip, src_port, dst_port, protocol }

def networkSendPacket (s : NetworkState) (data : List Uint8) (length : Uint32) :
    Option (NetworkState × ℤ) :=
  match s.current_device with
  | none => some (s,-1)
  | some device => do
    let src_ip := device.ip_address
    let a ← packetArguments data
    if firewallCheckPacket src_ip a.dst_ip a.src_port a.dst_port a.protocol s.firewall = ruleDeny
    then
      some ({ s with kernel := s.kernel.print "Packet blocked by firewall.\n".toList },-2)
    else some ({ s with sent := s.sent ++ [(data,length)] },device.send data length)

end Send

section Verdict

variable (device : NetworkDevice) (a : PacketArguments)

def packetMatch (f : Firewall) : Option FirewallRule :=
  firstMatch device.ip_address a.dst_ip a.src_port a.dst_port a.protocol f

def Allowed (f : Firewall) : Prop := ∃ rule, packetMatch device a f = some rule ∧ rule.action = ruleAllow

-- a packet the rules do not allow is refused, and nothing is sent
def FailsClosed (s : NetworkState) (data : List Uint8) (length : Uint32) : Prop :=
  ∃ t status, networkSendPacket s data length = some (t,status) ∧
    ((Allowed device a s.firewall ∧ t.sent = s.sent ++ [(data,length)] ∧
        status = device.send data length) ∨
      (¬ Allowed device a s.firewall ∧ t.sent = s.sent ∧ status = -2))

variable {device a} {s : NetworkState} {data : List Uint8} {length : Uint32}

variable (hdevice : s.current_device = some device) (ha : packetArguments data = some a)
  (henabled : s.firewall.firewall_enabled = true)

include hdevice ha henabled

theorem networkSendPacket_blocked
    (hdeny : ∀ rule, packetMatch device a s.firewall = some rule → rule.action = ruleDeny) :
    networkSendPacket s data length =
      some ({ s with kernel := s.kernel.print "Packet blocked by firewall.\n".toList },-2) := by
  have hverdict : firewallCheckPacket device.ip_address a.dst_ip a.src_port a.dst_port a.protocol
      s.firewall = ruleDeny := by
    rw [firewallCheckPacket_eq henabled]
    cases hmatch : packetMatch device a s.firewall with
    | none =>
      rw [packetMatch] at hmatch
      rw [hmatch]
    | some rule =>
      rw [← hdeny rule hmatch]
      rw [packetMatch] at hmatch
      rw [hmatch]
  simp only [networkSendPacket,hdevice,ha,Option.bind_eq_bind,Option.bind_some]
  exact if_pos hverdict

theorem networkSendPacket_sent {rule : FirewallRule}
    (hmatch : packetMatch device a s.firewall = some rule) (haction : rule.action ≠ ruleDeny) :
    networkSendPacket s data length =
      some ({ s with sent := s.sent ++ [(data,length)] },device.send data length) := by
  have hverdict : firewallCheckPacket device.ip_address a.dst_ip a.src_port a.dst_port a.protocol
      s.firewall ≠ ruleDeny := by
    rw [packetMatch] at hmatch
    rw [firewallCheckPacket_eq henabled,hmatch]
    exact haction
  simp only [networkSendPacket,hdevice,ha,Option.bind_eq_bind,Option.bind_some]
  exact if_neg hverdict

theorem failsClosed_iff : FailsClosed device a s data length ↔
    ∀ rule, packetMatch device a s.firewall = some rule →
      rule.action = ruleDeny ∨ rule.action = ruleAllow := by
  have hgrown : s.sent ++ [(data,length)] ≠ s.sent := by simp
  constructor
  · rintro ⟨t,status,hsend,hcases⟩ rule hmatch
    by_contra hother
    obtain ⟨hdeny,hallow⟩ := not_or.mp hother
    rw [networkSendPacket_sent hdevice ha henabled hmatch hdeny] at hsend
    cases hsend
    rcases hcases with ⟨⟨rule',hmatch',haction⟩,-⟩ | ⟨-,hsent,-⟩
    · rw [hmatch] at hmatch'
      cases hmatch'
      exact hallow haction
    · exact hgrown hsent
  · intro hactions
    by_cases hallowed : Allowed device a s.firewall
    · obtain ⟨rule,hmatch,haction⟩ := hallowed
      have hdeny : rule.action ≠ ruleDeny := by
        rw [haction]
        decide
      exact ⟨_,_,networkSendPacket_sent hdevice ha henabled hmatch hdeny,
        .inl ⟨⟨rule,hmatch,haction⟩,rfl,rfl⟩⟩
    · refine ⟨_,_,networkSendPacket_blocked hdevice ha henabled fun rule hmatch => ?_,
        .inr ⟨hallowed,rfl,rfl⟩⟩
      exact (hactions rule hmatch).resolve_right fun haction => hallowed ⟨rule,hmatch,haction⟩

end Verdict

theorem firewall_fails_closed (rules : List FirewallRule) (device : NetworkDevice)
    (sent : List (List Uint8 × Uint32)) (kernel : KernelState) (data : List Uint8)
    (length : Uint32) (a : PacketArguments) (ha : packetArguments data = some a) :
    FailsClosed device a ⟨firewallTable rules,some device,sent,kernel⟩ data length ↔
      ∀ rule, packetMatch device a (firewallTable rules) = some rule →
        rule.action = ruleDeny ∨ rule.action = ruleAllow :=
  failsClosed_iff rfl ha (firewallTable_enabled rules)

-- a request to port 80 of 10.0.0.1
def httpRequest : List Uint8 :=
  [0x45#8,0#8,0#8,24#8,0#8,0#8,0#8,0#8,64#8,6#8,0#8,0#8,10#8,0#8,0#8,2#8,10#8,0#8,0#8,1#8,
    0xc0#8,0#8,0#8,80#8]

def nullDevice : NetworkDevice := ⟨0x0200000a#32,fun _ _ => 0⟩

def allowTcp : FirewallRule := ⟨0#32,0#32,0#16,0#16,6#8,ruleAllow⟩

-- UDP is denied first, the request matches the second rule
def tcpOnly : List FirewallRule := [⟨0#32,0#32,0#16,0#16,17#8,ruleDeny⟩,allowTcp]

theorem firewall_fails_closed_tcp : ∃ a, packetArguments httpRequest = some a ∧
    Allowed nullDevice a (firewallTable tcpOnly) ∧
    FailsClosed nullDevice a ⟨firewallTable tcpOnly,some nullDevice,[],.boot⟩ httpRequest
      24#32 := by
  obtain ⟨a,ha⟩ := Option.isSome_iff_exists.mp
    (by decide : (packetArguments httpRequest).isSome)
  have hsecond : ∀ a ∈ packetArguments httpRequest,
      packetMatch nullDevice a (firewallTable tcpOnly) = some allowTcp := by decide
  refine ⟨a,ha,⟨allowTcp,hsecond a ha,rfl⟩,
    (firewall_fails_closed tcpOnly nullDevice [] .boot httpRequest 24#32 a ha).mpr ?_⟩
  intro rule hmatch
  obtain rfl := Option.some.inj (hmatch.symm.trans (hsecond a ha))
  exact .inr rfl

-- every field a wildcard, and an action that is neither
def unknownAction : FirewallRule := ⟨0#32,0#32,0#16,0#16,0#8,2#8⟩

theorem unknown_action_sends : ∃ a, packetArguments httpRequest = some a ∧
    ¬ FailsClosed nullDevice a ⟨firewallTable [unknownAction],some nullDevice,[],.boot⟩
      httpRequest 24#32 := by
  obtain ⟨a,ha⟩ := Option.isSome_iff_exists.mp
    (by decide : (packetArguments httpRequest).isSome)
  refine ⟨a,ha,fun hclosed => ?_⟩
  have hmatch : packetMatch nullDevice a (firewallTable [unknownAction]) = some unknownAction := by
    have hmatches : ruleMatches nullDevice.ip_address a.dst_ip a.src_port a.dst_port a.protocol
        unknownAction := ⟨.inr rfl,.inr rfl,.inr rfl,.inr rfl,.inr rfl⟩
    rw [packetMatch,firstMatch,firewallTable_rules,List.take_of_length_le (by decide),
      List.find?_cons,decide_eq_true hmatches]
  have haction := (failsClosed_iff rfl ha (firewallTable_enabled _)).mp hclosed unknownAction hmatch
  exact absurd haction (by decide)

section Packet

-- IHL*4, from the first byte
def headerLength (data : List Uint8) : ℕ := (data.headD 0#8).toNat % 16 * 4

structure IsIpv4 (data : List Uint8) : Prop where
  version : (data.headD 0#8).toNat / 16 = 4
  header : 20 ≤ headerLength data
  fits : headerLength data ≤ data.length

-- what the firewall is asked about are the packet's own fields, and no byte past the buffer is read
def JudgesPacket (data : List Uint8) : Prop :=
  ∃ a, packetArguments data = some a ∧ data[9]? = some a.protocol ∧
    a.dst_ip.toNat = bigEndian (slice data 16 4) ∧
    (headerLength data + 4 ≤ data.length →
      a.src_port.toNat = bigEndian (slice data (headerLength data) 2) ∧
      a.dst_port.toNat = bigEndian (slice data (headerLength data + 2) 2))

variable {data : List Uint8}

theorem slice_length {off n : ℕ} (h : off + n ≤ data.length) : (slice data off n).length = n := by
  rw [slice,List.length_take,List.length_drop]
  omega

theorem load32_some (h : 20 ≤ data.length) :
    load32 data 16 = some (BitVec.ofNat 32 (littleEndian (slice data 16 4))) := by
  rw [load32,readAt,if_pos h]
  rfl

theorem load16_some {off : ℕ} (h : off + 2 ≤ data.length) :
    load16 data off = some (BitVec.ofNat 16 (littleEndian (slice data off 2))) := by
  rw [load16,readAt,if_pos h]
  rfl

theorem load_toNat {w off n : ℕ} (hw : 256 ^ n = 2 ^ w) (h : off + n ≤ data.length) :
    (BitVec.ofNat w (littleEndian (slice data off n))).toNat = littleEndian (slice data off n) := by
  have hlt := littleEndian_lt (slice data off n)
  rw [slice_length h,hw] at hlt
  rw [BitVec.toNat_ofNat,Nat.mod_eq_of_lt hlt]

theorem load_isReal {w off off' n : ℕ} (hw : 256 ^ n = 2 ^ w) (h : off + n ≤ data.length)
    (h' : off' + n ≤ data.length) :
    (BitVec.ofNat w (littleEndian (slice data off n))).toNat = bigEndian (slice data off' n) ↔
      slice data off n = (slice data off' n).reverse := by
  rw [load_toNat hw h]
  exact littleEndian_eq_bigEndian ((slice_length h).trans (slice_length h').symm)

theorem packetArguments_some (h : 24 ≤ data.length) : ∃ protocol, data[9]? = some protocol ∧
    packetArguments data = some
      { dst_ip := BitVec.ofNat 32 (littleEndian (slice data 16 4))
        src_port := BitVec.ofNat 16 (littleEndian (slice data 20 2))
        dst_port := BitVec.ofNat 16 (littleEndian (slice data 22 2))
        protocol } := by
  have hprotocol : data[9]? = some data[9] := List.getElem?_eq_getElem (by omega)
  refine ⟨data[9],hprotocol,?_⟩
  rw [packetArguments,load32_some (by omega),load16_some (by omega),load16_some (by omega),hprotocol]
  rfl

theorem packetArguments_length {a : PacketArguments} (h : packetArguments data = some a) :
    24 ≤ data.length := by
  by_contra hshort
  have hload : load16 data 22 = none := by
    rw [load16,readAt,if_neg (by omega)]
    rfl
  rw [packetArguments] at h
  obtain ⟨dst_ip,-,h⟩ := Option.bind_eq_some_iff.mp h
  obtain ⟨src_port,-,h⟩ := Option.bind_eq_some_iff.mp h
  rw [hload] at h
  cases h

theorem judgesPacket_iff : JudgesPacket data ↔
    24 ≤ data.length ∧ slice data 16 4 = (slice data 16 4).reverse ∧
      (headerLength data + 4 ≤ data.length →
        slice data 20 2 = (slice data (headerLength data) 2).reverse ∧
        slice data 22 2 = (slice data (headerLength data + 2) 2).reverse) := by
  constructor
  · rintro ⟨a,ha,-,hdst,hports⟩
    have hlength := packetArguments_length ha
    obtain ⟨protocol,-,hargs⟩ := packetArguments_some hlength
    rw [ha] at hargs
    cases hargs
    refine ⟨hlength,(load_isReal (by decide) (by omega) (by omega)).mp hdst,fun hfits => ?_⟩
    obtain ⟨hsrc,hdst⟩ := hports hfits
    exact ⟨(load_isReal (by decide) (by omega) (by omega)).mp hsrc,
      (load_isReal (by decide) (by omega) (by omega)).mp hdst⟩
  · rintro ⟨hlength,hdst,hports⟩
    obtain ⟨protocol,hprotocol,hargs⟩ := packetArguments_some hlength
    refine ⟨_,hargs,hprotocol,(load_isReal (by decide) (by omega) (by omega)).mpr hdst,
      fun hfits => ?_⟩
    obtain ⟨hsrc,hdst⟩ := hports hfits
    exact ⟨(load_isReal (by decide) (by omega) (by omega)).mpr hsrc,
      (load_isReal (by decide) (by omega) (by omega)).mpr hdst⟩

end Packet

theorem firewall_judges_packet (data : List Uint8) : JudgesPacket data ↔
    24 ≤ data.length ∧ slice data 16 4 = (slice data 16 4).reverse ∧
      (headerLength data + 4 ≤ data.length →
        slice data 20 2 = (slice data (headerLength data) 2).reverse ∧
        slice data 22 2 = (slice data (headerLength data + 2) 2).reverse) :=
  judgesPacket_iff

theorem http_port_swapped : IsIpv4 httpRequest ∧ ¬ JudgesPacket httpRequest := by
  refine ⟨⟨by decide,by decide,by decide⟩,fun h => ?_⟩
  have hdst := (judgesPacket_iff.mp h).2.1
  exact absurd hdst (by decide)

end KluxOS.Net
