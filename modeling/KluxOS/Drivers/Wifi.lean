import KluxOS.Drivers.Printf

namespace KluxOS.Wifi

def wifiStateDown : Uint8 := 0#8

def wifiStateReady : Uint8 := 1#8

def wifiStateScanning : Uint8 := 2#8

def wifiStateConnecting : Uint8 := 3#8

def wifiStateConnected : Uint8 := 4#8

def wifiSecurityNone : Uint8 := 0#8

def wifiSecurityWep : Uint8 := 1#8

def wifiSecurityWpa2Psk : Uint8 := 3#8

structure ConnectionParams where
  ssid : Vector Char 32
  password : Vector Char 64
  security_type : Uint8

-- the functions a driver's pointers name, none for NULL
structure WifiDriver where
  scan : Option ℕ
  connect : Option ℕ
  disconnect : Option ℕ

structure WifiConfig where
  ssid : Vector Char 32
  password : Vector Char 64

structure WifiDevice where
  current_state : Uint8
  signal_strength : Uint8
  ip_address : Vector Uint8 4
  connected_channel : Uint8
  connection_timeout : Uint32
  connection_start_time : Uint32
  networks_found : Uint8
  config : WifiConfig
  driver : Option WifiDriver

structure WifiState where
  dev : WifiDevice
  terminal : CString

-- what a driver's functions do to the device and return
structure WifiHooks where
  scan : ℕ → WifiState → WifiState × ℤ
  connect : ℕ → WifiState → ConnectionParams → WifiState × ℤ
  disconnect : ℕ → WifiState → WifiState × ℤ

namespace WifiState

def print (s : WifiState) (text : CString) : WifiState := { s with terminal := s.terminal ++ text }

def enter (s : WifiState) (state : Uint8) : WifiState :=
  { s with dev := { s.dev with current_state := state } }

variable (s : WifiState)

@[simp] theorem print_dev (text : CString) : (s.print text).dev = s.dev := rfl

@[simp] theorem enter_driver (state : Uint8) : (s.enter state).dev.driver = s.dev.driver := rfl

@[simp] theorem enter_state (state : Uint8) : (s.enter state).dev.current_state = state := rfl

end WifiState

section Strings

def nul : Char := Char.ofNat 0

-- the copied characters, then zeros up to the k-th
def strncpy {n : ℕ} (dest : Vector Char n) (src : CString) (k : ℕ) : Vector Char n :=
  Vector.ofFn fun i => if i.val < k then src.getD i nul else dest.get i

end Strings

section Operations

variable (hooks : WifiHooks) (s : WifiState)

-- the loop reads the clock twice in each round; it goes on while the readings last
def waitTicks (start_time wait_time period : Uint32) : List Uint32 → WifiState → Option WifiState
  | [], _ => none
  | [now], s => if now - start_time < wait_time then none else some s
  | now :: again :: ticks, s =>
    if now - start_time < wait_time then
      waitTicks start_time wait_time period ticks
        (if (again - start_time) % period = 0#32 then s.print ['.'] else s)
    else some s

-- the first reading is start_time
def waitFrom (wait_time period : Uint32) (text : CString) (ticks : List Uint32) (s : WifiState) :
    Option WifiState :=
  match ticks with
  | [] => none
  | start_time :: ticks => waitTicks start_time wait_time period ticks (s.print text)

def setFound (networks_found : Uint8) : WifiState :=
  { s with dev := { s.dev with networks_found } }

def reportFound (result : ℤ) : WifiState :=
  if result > 0 then
    (setFound s (BitVec.ofInt 8 result)).print
      (terminalPrintf "Toplam %d WiFi agi bulundu.\n".toList)
  else setFound (s.print "Herhangi bir WiFi agi bulunamadi.\n".toList) 0#8

-- what wifi_scan does with the number of networks the driver found
def finishScan (result : ℤ) : WifiState × ℤ :=
  if result < 0 then ((s.print "HATA: WiFi tarama basarisiz!\n".toList).enter wifiStateReady,-3)
  else
    let s := s.print "\nWiFi aglari taramasi tamamlandi.\n".toList
    ((reportFound s result).enter wifiStateReady,0)

def wifiScan : WifiState × ℤ :=
  if s.dev.current_state = wifiStateDown then (s,-1)
  else
    let s := (s.enter wifiStateScanning).print "WiFi aglari taraniyor...\n".toList
    match s.dev.driver.bind WifiDriver.scan with
    | none =>
      let s := s.print "HATA: WiFi sürücüsü tarama fonksiyonu desteklemiyor!\n".toList
      (s.enter wifiStateReady,-2)
    | some hook =>
      let r := hooks.scan hook s
      finishScan r.1 r.2

variable (ssid password : CString)

def connectionParams : ConnectionParams where
  ssid := (strncpy (Vector.replicate 32 nul) ssid 31).set 31 nul
  password := (strncpy (Vector.replicate 64 nul) password 63).set 63 nul
  security_type :=
    if password.length = 0 then wifiSecurityNone
    else if password.length = 5 ∨ password.length = 13 then wifiSecurityWep
    else wifiSecurityWpa2Psk

def startConnect : WifiState :=
  let s := (((s.print "WiFi agina baglaniliyor: ".toList).print ssid).print ['\n'])
  let config : WifiConfig :=
    ⟨strncpy s.dev.config.ssid ssid 31,strncpy s.dev.config.password password 63⟩
  { s with dev := { s.dev with config }}.enter wifiStateConnecting

@[simp] theorem startConnect_driver :
    (startConnect s ssid password).dev.driver = s.dev.driver := rfl

-- now is the clock when the connection starts
def setTimeout (now : Uint32) : WifiState :=
  { s with dev := { s.dev with connection_timeout := 10000#32, connection_start_time := now } }

def setLink (ip_address : Vector Uint8 4) (signal_strength connected_channel : Uint8) : WifiState :=
  { s with dev := { s.dev with ip_address, signal_strength, connected_channel } }

-- the four numbers are passed, and terminal_printf takes none of them
def printAddress : WifiState := s.print (terminalPrintf "%d.%d.%d.%d\n".toList)

def simulatedAddress : Vector Uint8 4 := #v[192#8,168#8,1#8,100#8]

def finishConnect (ticks : List Uint32) (result : ℤ) : Option (WifiState × ℤ) :=
  if result < 0 then
    some ((s.print "HATA: WiFi baglanti baslatma basarisiz!\n".toList).enter wifiStateReady,-3)
  else do
    let s ← waitFrom 300#32 50#32 "Baglaniyor".toList ticks s
    let s := s.print "\nBaglanti kuruldu!\n".toList
    let s := printAddress (s.print "IP adresi: ".toList)
    some (setLink (s.enter wifiStateConnected) simulatedAddress 75#8 6#8,0)

-- ticks are the readings of the clock after the driver's connect
def wifiConnect (now : Uint32) (ticks : List Uint32) : Option (WifiState × ℤ) :=
  if s.dev.current_state = wifiStateDown then some (s,-1)
  else
    let s := startConnect s ssid password
    match s.dev.driver.bind WifiDriver.connect with
    | none =>
      let s := s.print "HATA: WiFi sürücüsü baglanti fonksiyonu desteklemiyor!\n".toList
      some (s.enter wifiStateReady,-2)
    | some hook =>
      let r := hooks.connect hook (setTimeout s now) (connectionParams ssid password)
      finishConnect r.1 ticks r.2

def finishDisconnect (ticks : List Uint32) (result : ℤ) : Option (WifiState × ℤ) :=
  if result < 0 then some (s.print "\nHATA: WiFi baglanti kesme basarisiz!\n".toList,-3)
  else do
    let s ← waitFrom 100#32 25#32 [] ticks s
    let s := setLink s (Vector.replicate 4 0#8) 0#8 0#8
    let config : WifiConfig := ⟨Vector.replicate 32 nul,Vector.replicate 64 nul⟩
    let s := { s with dev := { s.dev with config } }
    some ((s.enter wifiStateReady).print "\nWiFi baglantisi kesildi.\n".toList,0)

def wifiDisconnect (ticks : List Uint32) : Option (WifiState × ℤ) :=
  if s.dev.current_state ≠ wifiStateConnected then
    some (s.print "HATA: Aktif WiFi baglantisi bulunamadi.\n".toList,-1)
  else
    let s := s.print "WiFi baglantisi kesiliyor... ".toList
    match s.dev.driver.bind WifiDriver.disconnect with
    | none =>
      some (s.print "\nHATA: WiFi sürücüsü baglanti kesme fonksiyonu desteklemiyor!\n".toList,-2)
    | some hook =>
      let r := hooks.disconnect hook s
      finishDisconnect r.1 ticks r.2

end Operations

inductive WifiCall where
  | scan
  | connect (ssid password : CString) (now : Uint32) (ticks : List Uint32)
  | disconnect (ticks : List Uint32)

-- none is a call that waits on when the readings given are used up
def wifiStep (hooks : WifiHooks) (s : WifiState) : WifiCall → Option (WifiState × ℤ)
  | .scan => some (wifiScan hooks s)
  | .connect ssid password now ticks => wifiConnect hooks s ssid password now ticks
  | .disconnect ticks => wifiDisconnect hooks s ticks

end KluxOS.Wifi
