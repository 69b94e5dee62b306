import KluxOS.Drivers.Wifi

namespace KluxOS.Wifi

open WifiState

section Matching

-- the connection data of the device
def link (s : WifiState) : Vector Uint8 4 × Uint8 × Uint8 :=
  (s.dev.ip_address,s.dev.signal_strength,s.dev.connected_channel)

def noLink : Vector Uint8 4 × Uint8 × Uint8 := (Vector.replicate 4 0#8,0#8,0#8)

def AllSet (l : Vector Uint8 4 × Uint8 × Uint8) : Prop :=
  l.1 ≠ noLink.1 ∧ l.2.1 ≠ noLink.2.1 ∧ l.2.2 ≠ noLink.2.2

structure Matches (s : WifiState) : Prop where
  connected : s.dev.current_state = wifiStateConnected → AllSet (link s)
  idle : s.dev.current_state ≠ wifiStateConnected → link s = noLink

-- a driver's function leaves the state and the connection data to the calls of wifi.c
structure Leaves (s t : WifiState) : Prop where
  state : t.dev.current_state = s.dev.current_state
  link : link t = link s

structure KeepsConnection (hooks : WifiHooks) : Prop where
  scan : ∀ hook s, Leaves s (hooks.scan hook s).1
  connect : ∀ hook s params, Leaves s (hooks.connect hook s params).1
  disconnect : ∀ hook s, Leaves s (hooks.disconnect hook s).1

def Accepts (hooks : WifiHooks) (s : WifiState) (ssid password : CString) (now : Uint32) : Prop :=
  ∃ hook, s.dev.driver.bind WifiDriver.connect = some hook ∧
    0 ≤ (hooks.connect hook (setTimeout (startConnect s ssid password) now)
      (connectionParams ssid password)).2

-- no scan while connected, and no attempt to connect again that fails
def Undisturbed (hooks : WifiHooks) (s : WifiState) : WifiCall → Prop
  | .scan => s.dev.current_state ≠ wifiStateConnected
  | .connect ssid password now _ => s.dev.current_state = wifiStateConnected →
      Accepts hooks s ssid password now
  | .disconnect _ => True

end Matching

section Finish

variable {s t : WifiState} {result code : ℤ}

theorem reportFound_link (s : WifiState) (result : ℤ) : link (reportFound s result) = link s := by
  rw [reportFound]
  split <;> rfl

theorem finishScan_ready (s : WifiState) (result : ℤ) :
    (finishScan s result).1.dev.current_state = wifiStateReady ∧
      link (finishScan s result).1 = link s := by
  rw [finishScan]
  by_cases hfailed : result < 0
  · rw [if_pos hfailed]
    exact ⟨rfl,rfl⟩
  · rw [if_neg hfailed]
    exact ⟨rfl,reportFound_link (s.print _) result⟩

theorem finishConnect_cases {ticks : List Uint32}
    (h : finishConnect s ticks result = some (t,code)) :
    (result < 0 ∧ t.dev.current_state = wifiStateReady ∧ link t = link s) ∨
      0 ≤ result ∧ t.dev.current_state = wifiStateConnected ∧ AllSet (link t) := by
  rw [finishConnect] at h
  by_cases hfailed : result < 0
  · rw [if_pos hfailed] at h
    cases h
    exact .inl ⟨hfailed,rfl,rfl⟩
  · rw [if_neg hfailed] at h
    obtain ⟨u,hu,ht⟩ := Option.bind_eq_some_iff.mp h
    cases ht
    have hset : AllSet (#v[192#8,168#8,1#8,100#8],75#8,6#8) :=
      ⟨by decide,by decide,by decide⟩
    exact .inr ⟨Int.not_lt.mp hfailed,rfl,hset⟩

theorem finishDisconnect_cases {ticks : List Uint32}
    (h : finishDisconnect s ticks result = some (t,code)) :
    (t.dev.current_state = s.dev.current_state ∧ link t = link s) ∨
      t.dev.current_state = wifiStateReady ∧ link t = noLink := by
  rw [finishDisconnect] at h
  by_cases hfailed : result < 0
  · rw [if_pos hfailed] at h
    cases h
    exact .inl ⟨rfl,rfl⟩
  · rw [if_neg hfailed] at h
    obtain ⟨u,hu,ht⟩ := Option.bind_eq_some_iff.mp h
    cases ht
    exact .inr ⟨rfl,rfl⟩

end Finish

section Calls

variable {hooks : WifiHooks} (hkeep : KeepsConnection hooks) {s t : WifiState} {code : ℤ}
include hkeep

theorem wifiScan_ready (hdown : s.dev.current_state ≠ wifiStateDown) :
    (wifiScan hooks s).1.dev.current_state = wifiStateReady ∧
      link (wifiScan hooks s).1 = link s := by
  rw [wifiScan,if_neg hdown]
  cases hdriver : s.dev.driver.bind WifiDriver.scan with
  | none =>
    simp only [print_dev,enter_driver,hdriver]
    exact ⟨rfl,rfl⟩
  | some hook =>
    simp only [print_dev,enter_driver,hdriver]
    obtain ⟨hstate,hlink⟩ := finishScan_ready _ _
    exact ⟨hstate,hlink.trans (hkeep.scan hook _).link⟩

theorem wifiConnect_cases {ssid password : CString} {now : Uint32} {ticks : List Uint32}
    (hdown : s.dev.current_state ≠ wifiStateDown)
    (h : wifiConnect hooks s ssid password now ticks = some (t,code)) :
    (¬ Accepts hooks s ssid password now ∧ t.dev.current_state = wifiStateReady ∧
      link t = link s) ∨
    (Accepts hooks s ssid password now ∧ t.dev.current_state = wifiStateConnected ∧
      AllSet (link t)) := by
  rw [wifiConnect,if_neg hdown] at h
  cases hdriver : s.dev.driver.bind WifiDriver.connect with
  | none =>
    simp only [startConnect_driver,hdriver] at h
    cases h
    refine .inl ⟨?_,rfl,rfl⟩
    rintro ⟨hook,hhook,-⟩
    cases hdriver.symm.trans hhook
  | some hook =>
    simp only [startConnect_driver,hdriver] at h
    have hcall := hkeep.connect hook (setTimeout (startConnect s ssid password) now)
      (connectionParams ssid password)
    rcases finishConnect_cases h with ⟨hfailed,hstate,hlink⟩ | ⟨hdone,hstate,hset⟩
    · refine .inl ⟨?_,hstate,hlink.trans hcall.link⟩
      rintro ⟨hook',hhook,hresult⟩
      cases hdriver.symm.trans hhook
      exact absurd hfailed (Int.not_lt.mpr hresult)
    · exact .inr ⟨⟨hook,hdriver,hdone⟩,hstate,hset⟩

theorem wifiDisconnect_cases {ticks : List Uint32}
    (h : wifiDisconnect hooks s ticks = some (t,code)) :
    (t.dev.current_state = s.dev.current_state ∧ link t = link s) ∨
      t.dev.current_state = wifiStateReady ∧ link t = noLink := by
  rw [wifiDisconnect] at h
  by_cases hidle : s.dev.current_state ≠ wifiStateConnected
  · rw [if_pos hidle] at h
    cases h
    exact .inl ⟨rfl,rfl⟩
  rw [if_neg hidle] at h
  cases hdriver : s.dev.driver.bind WifiDriver.disconnect with
  | none =>
    simp only [print_dev,hdriver] at h
    cases h
    exact .inl ⟨rfl,rfl⟩
  | some hook =>
    simp only [print_dev,hdriver] at h
    have hcall := hkeep.disconnect hook (s.print "WiFi baglantisi kesiliyor... ".toList)
    refine (finishDisconnect_cases h).imp_left ?_
    rintro ⟨hstate,hlink⟩
    exact ⟨hstate.trans hcall.state,hlink.trans hcall.link⟩

end Calls

section Matched

variable {s t : WifiState}

theorem noLink_not_set : ¬ AllSet noLink := fun h => h.1 rfl

theorem matches_idle (hstate : t.dev.current_state = wifiStateReady) (hlink : link t = link s)
    (hs : Matches s) : Matches t ↔ s.dev.current_state ≠ wifiStateConnected := by
  have hidle : t.dev.current_state ≠ wifiStateConnected := by
    rw [hstate]
    decide
  constructor
  · intro ht hconnected
    have hset := hs.connected hconnected
    rw [← hlink,ht.idle hidle] at hset
    exact noLink_not_set hset
  · intro hs'
    exact ⟨fun hconnected => absurd hconnected hidle,fun _ => hlink.trans (hs.idle hs')⟩

theorem matches_same (hstate : t.dev.current_state = s.dev.current_state)
    (hlink : link t = link s) (hs : Matches s) : Matches t := by
  refine ⟨fun hconnected => ?_,fun hidle => ?_⟩
  · rw [hlink]
    exact hs.connected (hstate.symm.trans hconnected)
  · rw [hlink]
    exact hs.idle fun hconnected => hidle (hstate.trans hconnected)

theorem down_not_connected (hdown : s.dev.current_state = wifiStateDown) :
    s.dev.current_state ≠ wifiStateConnected := by
  rw [hdown]
  decide

end Matched

section Operations

variable {hooks : WifiHooks} (hkeep : KeepsConnection hooks) {s t : WifiState} {code : ℤ}
  (hs : Matches s)
include hkeep hs

theorem scan_matches_iff : Matches (wifiScan hooks s).1 ↔ Undisturbed hooks s .scan := by
  by_cases hoff : s.dev.current_state = wifiStateDown
  · rw [wifiScan,if_pos hoff]
    exact iff_of_true hs (down_not_connected hoff)
  · obtain ⟨hstate,hlink⟩ := wifiScan_ready hkeep hoff
    exact matches_idle hstate hlink hs

theorem connect_matches_iff {ssid password : CString} {now : Uint32} {ticks : List Uint32}
    (hrun : wifiConnect hooks s ssid password now ticks = some (t,code)) :
    Matches t ↔ Undisturbed hooks s (.connect ssid password now ticks) := by
  by_cases hoff : s.dev.current_state = wifiStateDown
  · rw [wifiConnect,if_pos hoff] at hrun
    cases hrun
    exact iff_of_true hs fun hconnected => absurd hconnected (down_not_connected hoff)
  rcases wifiConnect_cases hkeep hoff hrun with ⟨hrefused,hstate,hlink⟩ | ⟨haccepts,hstate,hset⟩
  · rw [matches_idle hstate hlink hs]
    exact imp_congr_right fun _ => (iff_false_intro hrefused).symm
  · exact iff_of_true ⟨fun _ => hset,fun hidle => absurd hstate hidle⟩ fun _ => haccepts

theorem disconnect_matches {ticks : List Uint32}
    (hrun : wifiDisconnect hooks s ticks = some (t,code)) : Matches t := by
  rcases wifiDisconnect_cases hkeep hrun with ⟨hstate,hlink⟩ | ⟨hstate,hlink⟩
  · exact matches_same hstate hlink hs
  · refine ⟨fun hconnected => ?_,fun _ => hlink⟩
    rw [hstate] at hconnected
    exact absurd hconnected (by decide)

end Operations

theorem wifi_data_matches (hooks : WifiHooks) (hkeep : KeepsConnection hooks) (s : WifiState)
    (c : WifiCall) (t : WifiState) (code : ℤ) (hs : Matches s)
    (hrun : wifiStep hooks s c = some (t,code)) : Matches t ↔ Undisturbed hooks s c := by
  cases c with
  | scan =>
    have ht : (wifiScan hooks s).1 = t := congrArg Prod.fst (Option.some.inj hrun)
    rw [← ht]
    exact scan_matches_iff hkeep hs
  | connect ssid password now ticks => exact connect_matches_iff hkeep hs hrun
  | disconnect ticks => exact iff_of_true (disconnect_matches hkeep hs hrun) trivial

-- a driver whose functions do nothing and report success
def idleHooks : WifiHooks where
  scan := fun _ s => (s,0)
  connect := fun _ s _ => (s,0)
  disconnect := fun _ s => (s,0)

def readyDevice : WifiDevice where
  current_state := wifiStateReady
  signal_strength := 0#8
  ip_address := Vector.replicate 4 0#8
  connected_channel := 0#8
  connection_timeout := 0#32
  connection_start_time := 0#32
  networks_found := 0#8
  config := ⟨Vector.replicate 32 nul,Vector.replicate 64 nul⟩
  driver := some ⟨some 0,some 0,some 0⟩

theorem idleHooks_keep : KeepsConnection idleHooks :=
  ⟨fun _ _ => ⟨rfl,rfl⟩,fun _ _ _ => ⟨rfl,rfl⟩,fun _ _ => ⟨rfl,rfl⟩⟩

theorem wifi_data_matches_connect : ∃ t, wifiStep idleHooks ⟨readyDevice,[]⟩
    (.connect ['a'] [] 0#32 [0#32,300#32]) = some (t,0) ∧ Matches t := by
  have hs : Matches ⟨readyDevice,[]⟩ := ⟨fun h => absurd h (by decide),fun _ => rfl⟩
  have hrun : wifiStep idleHooks ⟨readyDevice,[]⟩ (.connect ['a'] [] 0#32 [0#32,300#32]) =
      some (_,0) := rfl
  refine ⟨_,hrun,(wifi_data_matches _ idleHooks_keep _ _ _ _ hs hrun).mpr fun h => ?_⟩
  exact absurd h (by decide)

def connectedDevice : WifiDevice :=
  { readyDevice with
    current_state := wifiStateConnected
    signal_strength := 75#8
    ip_address := simulatedAddress
    connected_channel := 6#8 }

-- a scan leaves the device READY with the address of the connection still set
theorem scan_while_connected : Matches ⟨connectedDevice,[]⟩ ∧ KeepsConnection idleHooks ∧
    ¬ Matches (wifiScan idleHooks ⟨connectedDevice,[]⟩).1 := by
  refine ⟨⟨fun _ => ⟨by decide,by decide,by decide⟩,fun h => absurd rfl h⟩,idleHooks_keep,fun h => ?_⟩
  have hlink := h.idle (by decide)
  exact absurd hlink (by decide)

end KluxOS.Wifi
