import KluxOS.Drivers.Pci
import KluxOS.Drivers.WifiConnection
import KluxOS.Lib.Run

namespace KluxOS.Wifi

open Pci Run

structure WifiSystem (H : Type) where
  host : H
  wifi : WifiState

variable {H : Type}

def wifiInit (b : PciHost H) (s : WifiSystem H) : WifiSystem H × ℤ :=
  let wifi := s.wifi.print "WiFi alt sistemi baslatiliyor...\n".toList
  match pcieFindWifiCard b s.host with
  | (host,some dev) =>
    let wifi := (wifi.print dev.text).print "WiFi karti baslatiliyor...\n".toList
    let wifi := wifi.enter wifiStateDown
    (⟨host,{ wifi with dev := { wifi.dev with signal_strength := 0#8 } }⟩,0)
  | (host,none) => (⟨host,wifi.print "WiFi karti bulunamadi!\n".toList⟩,-1)

inductive SystemCall where
  | init
  | wifi (c : WifiCall)

def systemStep (b : PciHost H) (hooks : WifiHooks) (s : WifiSystem H) :
    SystemCall → Option (WifiSystem H × ℤ)
  | .init => some (wifiInit b s)
  | .wifi c => (wifiStep hooks s.wifi c).map fun r => ({ s with wifi := r.1 },r.2)

-- wifi_dev as the loader clears it
def bootDevice : WifiDevice where
  current_state := wifiStateDown
  signal_strength := 0#8
  ip_address := Vector.replicate 4 0#8
  connected_channel := 0#8
  connection_timeout := 0#32
  connection_start_time := 0#32
  networks_found := 0#8
  config := ⟨Vector.replicate 32 nul,Vector.replicate 64 nul⟩
  driver := none

def initText : CString :=
  "WiFi alt sistemi baslatiliyor...\n".toList ++ "WiFi karti bulunamadi!\n".toList

def idleText : CString := "HATA: Aktif WiFi baglantisi bulunamadi.\n".toList

def refusal : SystemCall → CString
  | .init => initText
  | .wifi .scan => []
  | .wifi (.connect _ _ _ _) => []
  | .wifi (.disconnect _) => idleText

theorem print_print (s : WifiState) (text more : CString) :
    (s.print text).print more = s.print (text ++ more) :=
  congrArg (fun terminal => { s with terminal := terminal }) (List.append_assoc ..)

theorem print_nil (s : WifiState) : s.print [] = s :=
  congrArg (fun terminal => { s with terminal := terminal }) (List.append_nil _)

theorem disconnect_idle (hooks : WifiHooks) {s : WifiState} (ticks : List Uint32)
    (hidle : s.dev.current_state ≠ wifiStateConnected) :
    wifiDisconnect hooks s ticks = some (s.print idleText,-1) :=
  if_pos hidle

section Down

variable {b : PciHost H} (hlatch : Latches b)

include hlatch

theorem wifiInit_none (s : WifiSystem H) : ∃ host, wifiInit b s =
    (⟨host,s.wifi.print initText⟩,-1) := by
  have hnone := pcieFindWifiCard_none hlatch s.host
  rw [wifiInit]
  generalize pcieFindWifiCard b s.host = found at hnone
  obtain ⟨host,card⟩ := found
  obtain rfl : card = none := hnone
  exact ⟨host,congrArg (fun wifi => ((⟨host,wifi⟩ : WifiSystem H),-1)) (print_print s.wifi _ _)⟩

theorem systemStep_down (hooks : WifiHooks) {s : WifiSystem H} (hdev : s.wifi.dev = bootDevice)
    (c : SystemCall) :
    ∃ host, systemStep b hooks s c = some (⟨host,s.wifi.print (refusal c)⟩,-1) := by
  have hstate : s.wifi.dev.current_state = wifiStateDown := by
    rw [hdev]
    rfl
  cases c with
  | init =>
    obtain ⟨host,hinit⟩ := wifiInit_none hlatch s
    exact ⟨host,congrArg some hinit⟩
  | wifi c =>
    have hback : ∀ text, wifiStep hooks s.wifi c = some (s.wifi.print text,-1) →
        systemStep b hooks s (.wifi c) = some (⟨s.host,s.wifi.print text⟩,-1) := by
      intro text hstep
      rw [systemStep,hstep,Option.map_some]
    refine ⟨s.host,hback _ ?_⟩
    cases c with
    | scan =>
      change some (wifiScan hooks s.wifi) = some (s.wifi.print [],-1)
      rw [print_nil,wifiScan,if_pos hstate]
    | connect ssid password now ticks =>
      change wifiConnect hooks s.wifi ssid password now ticks = some (s.wifi.print [],-1)
      rw [print_nil,wifiConnect,if_pos hstate]
    | disconnect ticks =>
      have hidle : s.wifi.dev.current_state ≠ wifiStateConnected := by
        rw [hstate]
        decide
      exact disconnect_idle hooks ticks hidle

end Down

-- whatever is on the bus no card is found, and no call brings the device up
theorem wifi_stays_down (b : PciHost H) (hlatch : Latches b) (hooks : WifiHooks) (host : H)
    (terminal : CString) (calls : List SystemCall) : ∃ host',
    run (logged (systemStep b hooks)) (⟨host,⟨bootDevice,terminal⟩⟩,[]) calls =
      some (⟨host',⟨bootDevice,terminal ++ calls.flatMap refusal⟩⟩,calls.map fun _ => -1) := by
  have hstep : ∀ (done : List SystemCall) (results : List ℤ) (s : WifiSystem H) (c : SystemCall),
      results = done.map (fun _ => -1) ∧ s.wifi = ⟨bootDevice,terminal ++ done.flatMap refusal⟩ →
      ∃ t code, systemStep b hooks s c = some (t,code) ∧
        results ++ [code] = (done ++ [c]).map (fun _ => -1) ∧
        t.wifi = ⟨bootDevice,terminal ++ (done ++ [c]).flatMap refusal⟩ := by
    rintro done results s c ⟨rfl,hwifi⟩
    obtain ⟨host',hdown⟩ := systemStep_down hlatch hooks (congrArg WifiState.dev hwifi) c
    refine ⟨_,-1,hdown,by rw [List.map_append,List.map_singleton],?_⟩
    rw [hwifi,List.flatMap_append,List.flatMap_singleton,← List.append_assoc]
    rfl
  obtain ⟨⟨host',wifi⟩,results,hrun,rfl,hwifi⟩ := run_logged hstep
    (s := ⟨host,⟨bootDevice,terminal⟩⟩)
    ⟨rfl,congrArg (WifiState.mk bootDevice) (List.append_nil _).symm⟩ calls
  exact ⟨host',hwifi ▸ hrun⟩

-- every function on the bus answers with 0x80, the subclass of a wireless card, in every register
def wirelessBus : ConfigSpace := ⟨0#32,fun _ _ _ _ => 0x80808080#32⟩

theorem wifi_stays_down_bus : ∃ host',
    run (logged (systemStep ConfigSpace.ports idleHooks)) (⟨wirelessBus,⟨bootDevice,[]⟩⟩,[])
        [.init,.wifi .scan,.wifi (.disconnect [])] =
      some (⟨host',⟨bootDevice,initText ++ idleText⟩⟩,[-1,-1,-1]) := by
  obtain ⟨host',hrun⟩ := wifi_stays_down ConfigSpace.ports ConfigSpace.ports_latch idleHooks
    wirelessBus [] [.init,.wifi .scan,.wifi (.disconnect [])]
  exact ⟨host',hrun⟩

end KluxOS.Wifi
