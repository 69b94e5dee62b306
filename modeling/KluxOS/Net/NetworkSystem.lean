import KluxOS.Drivers.Pci
import KluxOS.Lib.Run
import KluxOS.Net.Receive

namespace KluxOS.Net

open Pci Run

def rtl8139VendorId : Uint16 := 0x10EC#16

def rtl8139DeviceId : Uint16 := 0x8139#16

structure NetworkSystem (H : Type) where
  host : H
  current_device : Option ReceivingDevice
  firewall : Firewall
  sent : List (List Uint8 × Uint32)
  received : List (List Uint8 × Uint32)
  kernel : KernelState

namespace NetworkSystem

variable {H : Type} (s : NetworkSystem H)

def print (text : CString) : NetworkSystem H := { s with kernel := s.kernel.print text }

def sender : NetworkState :=
  ⟨s.firewall,s.current_device.map ReceivingDevice.toNetworkDevice,s.sent,s.kernel⟩

def receiver : ReceiveState := ⟨s.current_device,s.received⟩

end NetworkSystem

-- card is the device that the driver leaves behind
def rtl8139Init (card : ReceivingDevice) (dev : PciDevice) : Option ReceivingDevice :=
  if dev.vendor_id ≠ rtl8139VendorId ∨ dev.device_id ≠ rtl8139DeviceId then none else some card

variable {H : Type}

def loadDriver (card : ReceivingDevice) (s : NetworkSystem H) (dev : PciDevice) :
    NetworkSystem H :=
  match rtl8139Init card dev with
  | some device =>
    { s with current_device := some device }.print "RTL8139 driver loaded successfully.\n".toList
  | none => s.print "Driver not loaded!\n".toList

def findDevice (b : PciHost H) (card : ReceivingDevice) (s : NetworkSystem H) : NetworkSystem H :=
  match pciFindNetworkCard b s.host with
  | (host,some dev) => loadDriver card ({ s with host }.print "Network card found!\n".toList) dev
  | (host,none) => { s with host }.print "Network card not found!\n".toList

def networkInit (b : PciHost H) (card : ReceivingDevice) (s : NetworkSystem H) :
    NetworkSystem H :=
  let s := s.print "Network init started\n".toList
  let s := findDevice b card s
  let s := s.print "Firewall init started...\n".toList
  { s with firewall := firewallInit }.print "Firewall initialized.\n".toList

inductive NetworkCall where
  | init
  | addRule (rule : FirewallRule)
  | enable
  | disable
  | send (data : List Uint8) (length : Uint32)
  | receive (buffer : Option (List Uint8)) (length : Uint32)

-- none for the calls that return nothing
def networkStep (b : PciHost H) (card : ReceivingDevice) (s : NetworkSystem H) :
    NetworkCall → Option (NetworkSystem H × Option ℤ)
  | .init => some (networkInit b card s,none)
  | .addRule rule =>
    let r := firewallAddRule s.firewall rule
    some ({ s with firewall := r.1 },some r.2)
  | .enable =>
    some ({ s with firewall := firewallEnable s.firewall }.print "Firewall enabled.\n".toList,none)
  | .disable =>
    some ({ s with firewall := firewallDisable s.firewall }.print "Firewall disabled.\n".toList,none)
  | .send data length =>
    (networkSendPacket s.sender data length).map fun r =>
      ({ s with firewall := r.1.firewall, sent := r.1.sent, kernel := r.1.kernel },some r.2)
  | .receive buffer length =>
    (networkReceivePacket s.receiver buffer length).map fun r =>
      ({ s with received := r.1.received },some r.2)

-- what a machine without a card does to the rules, the terminal and the caller
namespace NetworkCall

def rules (f : Firewall) : NetworkCall → Firewall
  | .init => firewallInit
  | .addRule rule => (firewallAddRule f rule).1
  | .enable => firewallEnable f
  | .disable => firewallDisable f
  | .send _ _ => f
  | .receive _ _ => f

def startText : CString :=
  "Network init started\n".toList ++ "Network card not found!\n".toList ++
    "Firewall init started...\n".toList ++ "Firewall initialized.\n".toList

def enableText : CString := "Firewall enabled.\n".toList

def disableText : CString := "Firewall disabled.\n".toList

def text : NetworkCall → CString
  | .init => startText
  | .addRule _ => []
  | .enable => enableText
  | .disable => disableText
  | .send _ _ => []
  | .receive _ _ => []

def result (f : Firewall) : NetworkCall → Option ℤ
  | .init => none
  | .addRule rule => some (firewallAddRule f rule).2
  | .enable => none
  | .disable => none
  | .send _ _ => some (-1)
  | .receive _ _ => some (-1)

def results (f : Firewall) : List NetworkCall → List (Option ℤ)
  | [] => []
  | c :: cs => c.result f :: results (c.rules f) cs

theorem results_append (f : Firewall) (cs : List NetworkCall) (c : NetworkCall) :
    results f (cs ++ [c]) = results f cs ++ [c.result (cs.foldl rules f)] := by
  induction cs generalizing f with
  | nil => rfl
  | cons d cs ih => rw [List.cons_append,results,ih,results,List.foldl_cons,List.cons_append]

end NetworkCall

open NetworkCall

section Step

variable (card : ReceivingDevice) {s : NetworkSystem H}

theorem print_print (s : NetworkSystem H) (text more : CString) :
    (s.print text).print more = s.print (text ++ more) :=
  congrArg (fun kernel => { s with kernel := kernel }) (KernelState.print_print ..)

theorem print_four (s : NetworkSystem H) (host : H) (f : Firewall) (w x y z : CString) :
    { ((({ s.print w with host }).print x).print y) with firewall := f }.print z =
      { s with host, firewall := f }.print (w ++ x ++ y ++ z) := by
  rw [← print_print,← print_print,← print_print]
  rfl

variable {b : PciHost H} (hlatch : Latches b)

include hlatch

theorem findDevice_none (s : NetworkSystem H) : ∃ host,
    findDevice b card s = { s with host }.print "Network card not found!\n".toList := by
  have hnone := pciFindNetworkCard_none hlatch s.host
  rw [findDevice]
  generalize pciFindNetworkCard b s.host = found at hnone
  obtain ⟨host,dev⟩ := found
  obtain rfl : dev = none := hnone
  exact ⟨host,rfl⟩

theorem networkInit_none (s : NetworkSystem H) : ∃ host, networkInit b card s =
    { s with host, firewall := firewallInit }.print startText := by
  obtain ⟨host,hnone⟩ := findDevice_none card hlatch (s.print "Network init started\n".toList)
  refine ⟨host,?_⟩
  rw [networkInit,hnone]
  exact print_four s host firewallInit _ _ _ _

theorem networkStep_none (hdevice : s.current_device = none) (c : NetworkCall) : ∃ host,
    networkStep b card s c = some (⟨host,none,c.rules s.firewall,s.sent,s.received,
      s.kernel.print c.text⟩,c.result s.firewall) := by
  obtain ⟨host,device,f,sent,received,kernel⟩ := s
  obtain rfl : device = none := hdevice
  cases c with
  | init =>
    obtain ⟨host',hinit⟩ := networkInit_none card hlatch ⟨host,none,f,sent,received,kernel⟩
    exact ⟨host',congrArg (fun t => some (t,none)) hinit⟩
  | enable => exact ⟨host,rfl⟩
  | disable => exact ⟨host,rfl⟩
  | addRule rule =>
    refine ⟨host,?_⟩
    rw [text,KernelState.print_nil]
    rfl
  | send data length =>
    refine ⟨host,?_⟩
    rw [text,KernelState.print_nil]
    rfl
  | receive buffer length =>
    refine ⟨host,?_⟩
    rw [text,KernelState.print_nil]
    rfl

end Step

-- the search reads one register for the class and the subclass, so no driver is ever loaded
theorem network_never_used (b : PciHost H) (hlatch : Latches b) (card : ReceivingDevice) (host : H)
    (f : Firewall) (kernel : KernelState) (calls : List NetworkCall) : ∃ host',
    run (logged (networkStep b card)) (⟨host,none,f,[],[],kernel⟩,[]) calls =
      some (⟨host',none,calls.foldl rules f,[],[],kernel.print (calls.flatMap text)⟩,
        results f calls) := by
  have hstep : ∀ (done : List NetworkCall) (rs : List (Option ℤ)) (s : NetworkSystem H)
      (c : NetworkCall),
      rs = results f done ∧ (∃ host, s = ⟨host,none,done.foldl rules f,[],[],
        kernel.print (done.flatMap text)⟩) →
      ∃ t r, networkStep b card s c = some (t,r) ∧ rs ++ [r] = results f (done ++ [c]) ∧
        ∃ host, t = ⟨host,none,(done ++ [c]).foldl rules f,[],[],
          kernel.print ((done ++ [c]).flatMap text)⟩ := by
    rintro done rs s c ⟨rfl,host,rfl⟩
    obtain ⟨host',hnone⟩ := networkStep_none card hlatch (s := ⟨host,none,done.foldl rules f,[],[],
      kernel.print (done.flatMap text)⟩) rfl c
    refine ⟨_,_,hnone,(results_append f done c).symm,host',?_⟩
    rw [KernelState.print_print,List.foldl_append,List.flatMap_append,List.flatMap_singleton]
    rfl
  obtain ⟨t,rs,hrun,rfl,host',rfl⟩ := run_logged hstep (s := ⟨host,none,f,[],[],kernel⟩)
    ⟨rfl,host,congrArg (NetworkSystem.mk host none f [] []) (KernelState.print_nil kernel).symm⟩
    calls
  exact ⟨host',hrun⟩

-- the card of the driver, wherever the bus is read
def rtl8139Bus : ConfigSpace := ⟨0x80000000#32,fun _ _ _ _ => 0x813910EC#32⟩

def packetCalls : List NetworkCall :=
  [.init,.addRule allowTcp,.send httpRequest 24#32,.receive (some httpRequest) 24#32]

theorem network_never_used_rtl8139 : ∃ host',
    run (logged (networkStep ConfigSpace.ports quietDevice))
        (⟨rtl8139Bus,none,firewallInit,[],[],.boot⟩,[]) packetCalls =
      some (⟨host',none,⟨[allowTcp],true⟩,[],[],KernelState.boot.print (packetCalls.flatMap text)⟩,
        [none,some 0,some (-1),some (-1)]) :=
  network_never_used ConfigSpace.ports ConfigSpace.ports_latch quietDevice rtl8139Bus firewallInit
    .boot packetCalls

end KluxOS.Net
